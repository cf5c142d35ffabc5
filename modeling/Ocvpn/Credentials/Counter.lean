import Ocvpn.Credentials.Hotp
import Ocvpn.LTS.History

/-!
# The counter of a seed

However the threads interleave, fail and crash, a transaction writes over the seed it has read and
given to the native library, and nobody else touches the seed meanwhile.  The seed that is read is
the one that was written last.

## Main results

* `acts_of_step` : the steps of a thread.
* `Acts.keyring` : the keyring changes by what the notes say is written.
* `Inv.step` : the lock file and the seed of whoever has a transaction.
* `counter_never_rolled_back` : what holds of every run.
-/

namespace Ocvpn.Credentials

open Crash

/-! ### Threads -/

/-- The seed of a transaction that has begun and is not committed. -/
def Thread.transaction : Thread → Option String
  | .worker (.native slot) => slot
  | .worker (.handing seed) | .worker (.writing seed _) => some seed
  | _ => none

/-- The thread has the lock file. -/
def Thread.Locks : Thread → Prop
  | .worker (.native slot) => slot ≠ none
  | .worker .acquiring => False
  | .worker _ | .editing _ => True
  | _ => False

theorem Thread.locks_of_transaction {k : Thread} (h : k.transaction ≠ none) : k.Locks := by
  cases k with
  | worker place => cases place <;> simp_all [transaction, Locks]
  | _ => exact absurd rfl h

/-- Whom the note is about. -/
def Note.thread : Note → Tid
  | began t _ | handed t _ | committed t _ _ | edited t _ _ | returned t _ _ => t

/-- A transaction begins, or the seed changes. -/
def Note.Touches : Note → Prop
  | began .. | committed .. => True
  | edited _ purpose _ => purpose = .tokenSeed
  | _ => False

/-- The entry of the keyring that is written, and what is there then. -/
def Note.entry : Note → Option (Purpose × Option String)
  | committed _ value _ => some (.tokenSeed, some value)
  | edited _ purpose value => some (purpose, value)
  | _ => none

/-- The keyring after everything that was written, one after the other. -/
def written (keyring : Purpose → Option String) (os : List Note) : Purpose → Option String :=
  (os.filterMap Note.entry).foldl (fun keyring e => Function.update keyring e.1 e.2) keyring

theorem written_append (keyring : Purpose → Option String) (os o : List Note) :
    written keyring (os ++ o) = written (written keyring os) o := by
  simp only [written, List.filterMap_append, List.foldl_append]

/-- The steps of a thread. -/
inductive Acts (s : System) (t : Tid) : System → List Note → Prop
  | plain (k : Thread) (hlocks : ¬ (s.threads t).Locks) (hk : ¬ k.Locks) : Acts s t (s.set t k) []
  | active (seed : String) (hk : s.threads t = .worker (.native (some seed))) :
      Acts s t s [.returned t .lock (.error activeTransaction)]
  | acquire (k : Thread) (hfree : s.holder = none)
      (hk : k = .worker .reading ∨ ∃ edits, k = .editing edits) :
      Acts s t { s.set t k with holder := some t } []
  | fail (e : Error) (he : e ≠ activeTransaction) : Acts s t (s.failLock t e).1 (s.failLock t e).2
  | read (seed : String) (hk : s.threads t = .worker .reading)
      (hseed : s.keyring .tokenSeed = some seed) :
      Acts s t (s.set t (.worker (.handing seed))) [.began t seed]
  | hand (seed : String) (hk : s.threads t = .worker (.handing seed)) :
      Acts s t (s.set t (.worker (.native (some seed)))) [.handed t seed, .returned t .lock (.ok ())]
  | take (seed value : String) (hk : s.threads t = .worker (.native (some seed))) :
      Acts s t (s.set t (.worker (.writing seed value))) []
  | commit (seed value : String) (r : Except Error Unit)
      (hk : s.threads t = .worker (.writing seed value)) :
      Acts s t ((s.write .tokenSeed (some value)).set t (.worker (.dropping r)))
        [.committed t value (s.keyring .tokenSeed)]
  | miss (seed value : String) (r : Except Error Unit)
      (hk : s.threads t = .worker (.writing seed value)) :
      Acts s t (s.set t (.worker (.dropping r))) []
  | cancel (r : Except Error Unit) : Acts s t (s.cancel t r).1 (s.cancel t r).2
  | edit (p : Purpose) (v : Option String) (rest : List (Purpose × Option String))
      (hk : s.threads t = .editing ((p, v) :: rest)) :
      Acts s t ((s.write p v).set t (.editing rest)) [.edited t p v]
  | editLast (p : Purpose) (v : Option String) (rest : List (Purpose × Option String))
      (hk : s.threads t = .editing ((p, v) :: rest)) :
      Acts s t (((s.write p v).release t).set t .gone) [.edited t p v]
  | leave : Acts s t ((s.release t).set t .gone) []

variable {s s' : System} {o os : List Note} {t : Tid}

theorem acts_of_stepWorker {c : Cut Error} {place : Place} (hk : s.threads t = .worker place)
    (h : s.stepWorker t c place = some (s', o)) : Acts s t s' o := by
  have hne : ∀ e : Error, e.code ≠ .conflict → e ≠ activeTransaction := by
    rintro e he rfl
    exact he rfl
  cases place with
  | native => cases h
  | acquiring =>
    simp only [System.stepWorker] at h
    split at h
    · split_ifs at h with hfree
      cases h
      exact .acquire _ hfree (.inl rfl)
    · cases h
      exact .fail _ (hne _ (by decide))
  | reading =>
    simp only [System.stepWorker] at h
    split at h
    · split at h
      · cases h
        exact .fail _ (hne _ (by decide))
      · rename_i seed hseed
        split_ifs at h
        · cases h
          exact .fail _ (hne _ (by decide))
        · cases h
          exact .read seed hk hseed
    · cases h
      exact .fail _ (hne _ (by decide))
  | handing seed =>
    simp only [System.stepWorker] at h
    split_ifs at h
    · cases h
      exact .fail _ (hne _ (by decide))
    · split at h
      · cases h
        exact .hand seed hk
      · cases h
        exact .fail _ (hne _ (by decide))
  | writing seed value =>
    simp only [System.stepWorker] at h
    split_ifs at h
    all_goals cases h
    · exact .commit seed value _ hk
    · exact .commit seed value _ hk
    · exact .miss seed value _ hk
    · exact .miss seed value _ hk
  | dropping result =>
    cases h
    exact .cancel result

theorem acts_of_stepOrdinary {c : Cut Error} {edits : List (Purpose × Option String)}
    (hk : s.threads t = .editing edits) :
    Acts s t (s.stepOrdinary t c edits).1 (s.stepOrdinary t c edits).2 := by
  match edits, c with
  | [], _ => exact .leave
  | (p, v) :: rest, .performed => exact .edit p v rest hk
  | (p, v) :: rest, .lost _ => exact .editLast p v rest hk
  | (p, v) :: rest, .refused _ | (p, v) :: rest, .stopBefore | (p, v) :: rest, .stopAfter =>
    exact .leave

/-- **The steps of the machine**: a thread goes on, or a process is gone. -/
theorem acts_of_step {i : Input} (h : machine.step s i = some (s', o)) :
    (∃ t, Acts s t s' o) ∨ ∃ process, o = [] ∧ s' = { s with
      threads := fun t => if t.1 = process then .gone else s.threads t
      holder := if s.holder.any (·.1 = process) then none else s.holder } := by
  cases i with
  | start t =>
    simp only [machine] at h
    split at h
    · rename_i hk
      cases h
      exact .inl ⟨t, .plain _ (by simp [hk, Thread.Locks]) (by simp [Thread.Locks])⟩
    · cases h
  | call t f =>
    simp only [machine] at h
    split at h
    · rename_i hk
      cases h
      exact .inl ⟨t, .plain _ (by simp [hk, Thread.Locks]) (by simp [Thread.Locks])⟩
    · cases h
  | lock t =>
    simp only [machine] at h
    split at h
    · rename_i seed hk
      cases h
      exact .inl ⟨t, .active seed hk⟩
    · rename_i hk
      cases h
      exact .inl ⟨t, .plain _ (by simp [hk, Thread.Locks]) (by simp [Thread.Locks])⟩
    · cases h
  | unlock t token =>
    simp only [machine] at h
    split at h
    · rename_i slot hk
      split at h
      · cases h
        exact .inl ⟨t, .cancel _⟩
      · cases h
        exact .inl ⟨t, .cancel _⟩
      · cases h
        exact .inl ⟨t, .cancel _⟩
      · rename_i value seed
        split_ifs at h
        · cases h
          exact .inl ⟨t, .cancel _⟩
        · cases h
          exact .inl ⟨t, .take seed value hk⟩
    · cases h
  | step t c =>
    simp only [machine] at h
    split at h
    · rename_i place hk
      exact .inl ⟨t, acts_of_stepWorker hk h⟩
    · rename_i edits hk
      split at h
      · split_ifs at h with hfree
        cases h
        exact .inl ⟨t, .acquire _ hfree (.inr ⟨edits, rfl⟩)⟩
      · cases h
        exact .inl ⟨t, .plain _ (by simp [hk, Thread.Locks]) (by simp [Thread.Locks])⟩
    · rename_i edits hk
      rw [Option.some.injEq] at h
      rw [show s' = _ from congrArg Prod.fst h.symm, show o = _ from congrArg Prod.snd h.symm]
      exact .inl ⟨t, acts_of_stepOrdinary hk⟩
    · cases h
  | finish t =>
    simp only [machine] at h
    split at h
    · cases h
      exact .inl ⟨t, .leave⟩
    · cases h
  | crash process =>
    cases h
    exact .inr ⟨process, rfl, rfl⟩

/-! ### What a step leaves alone -/

/-- Other threads do not notice the step of a thread that has not the lock. -/
structure Apart (s : System) (t : Tid) (s' : System) (o : List Note) : Prop where
  threads : ∀ u ≠ t, s'.threads u = s.threads u
  holder : ∀ u ≠ t, s.holder = some u → s'.holder = some u
  keyring : ¬ (s.threads t).Locks → s'.keyring = s.keyring
  quiet : ¬ (s.threads t).Locks → ∀ n ∈ o, ¬ n.Touches
  notes : ∀ n ∈ o, n.thread = t

theorem Acts.apart (h : Acts s t s' o) : Apart s t s' o := by
  have hset : ∀ (k : Thread) (u), u ≠ t → Function.update s.threads t k u = s.threads u :=
    fun k u hu => Function.update_of_ne hu k s.threads
  have hrelease : ∀ u ≠ t, s.holder = some u → (s.release t).holder = some u := by
    intro u hu hholder
    simp [System.release, hholder, hu]
  cases h with
  | plain | take | miss | hand =>
    exact ⟨fun u hu => hset _ u hu, fun _ _ => id, fun _ => rfl, by simp [Note.Touches],
      by simp [Note.thread]⟩
  | active => exact ⟨fun _ _ => rfl, fun _ _ => id, fun _ => rfl, by simp [Note.Touches],
      by simp [Note.thread]⟩
  | acquire k hfree =>
    refine ⟨fun u hu => hset _ u hu, fun u _ hholder => ?_, fun _ => rfl, by simp, by simp⟩
    rw [hfree] at hholder
    cases hholder
  | fail | cancel | leave =>
    exact ⟨fun u hu => hset _ u hu, hrelease, fun _ => rfl,
      by simp [System.failLock, System.cancel, Note.Touches],
      by simp [System.failLock, System.cancel, Note.thread]⟩
  | read seed hk =>
    exact ⟨fun u hu => hset _ u hu, fun _ _ => id, fun _ => rfl,
      fun hlocks => absurd (by simp [hk, Thread.Locks]) hlocks, by simp [Note.thread]⟩
  | commit seed value r hk =>
    have hlocks : (s.threads t).Locks := by simp [hk, Thread.Locks]
    exact ⟨fun u hu => hset _ u hu, fun _ _ => id, fun hno => absurd hlocks hno,
      fun hno => absurd hlocks hno, by simp [Note.thread]⟩
  | edit p v rest hk =>
    have hlocks : (s.threads t).Locks := by simp [hk, Thread.Locks]
    exact ⟨fun u hu => hset _ u hu, fun _ _ => id, fun hno => absurd hlocks hno,
      fun hno => absurd hlocks hno, by simp [Note.thread]⟩
  | editLast p v rest hk =>
    have hlocks : (s.threads t).Locks := by simp [hk, Thread.Locks]
    exact ⟨fun u hu => hset _ u hu, hrelease, fun hno => absurd hlocks hno,
      fun hno => absurd hlocks hno, by simp [Note.thread]⟩

/-- The keyring changes by what the notes of the step say is written. -/
theorem Acts.keyring (h : Acts s t s' o) : s'.keyring = written s.keyring o := by
  cases h <;> rfl

/-- A commit puts its value in the place of the seed that was there. -/
theorem Acts.committed {u : Tid} {value : String} {replaced : Option String} (h : Acts s t s' o)
    (hn : .committed u value replaced ∈ o) :
    s.keyring .tokenSeed = replaced ∧ s'.keyring .tokenSeed = some value := by
  cases h with
  | commit seed value r hk =>
    simp only [List.mem_singleton, Note.committed.injEq] at hn
    obtain ⟨-, rfl, rfl⟩ := hn
    exact ⟨rfl, by simp [System.set, System.write]⟩
  | _ => simp [System.failLock, System.cancel] at hn

/-- A lock callback that meets no open transaction and fails leaves none, and not the lock. -/
theorem Acts.failed {u : Tid} {e : Error} (h : Acts s t s' o)
    (hn : .returned u .lock (.error e) ∈ o) (he : e ≠ activeTransaction) :
    (s'.threads u).transaction = none ∧ s'.holder ≠ some u := by
  cases h with
  | fail e' he' =>
    simp only [System.failLock, List.mem_singleton, Note.returned.injEq] at hn
    obtain ⟨rfl, -, -⟩ := hn
    simp only [System.failLock, System.set, System.release, Function.update_self]
    refine ⟨rfl, ?_⟩
    split_ifs with hholder
    · simp
    · exact hholder
  | active seed hk => simp [he] at hn
  | _ => simp [System.cancel] at hn

/-! ### The invariant -/

/-- The transaction of the thread has begun with the seed, and nobody has begun another or changed
the seed since; `given` says that the library has the seed. -/
def Open (os : List Note) (t : Tid) (seed : String) (given : Prop) : Prop :=
  ∃ xs ys, os = xs ++ .began t seed :: ys ∧ (∀ n ∈ ys, ¬ n.Touches) ∧ (given → .handed t seed ∈ ys)

/-- A lock callback of the thread has succeeded, and no unlock callback has returned since. -/
def Locked (os : List Note) (t : Tid) : Prop :=
  ∃ xs ys, os = xs ++ .returned t .lock (.ok ()) :: ys ∧ ∀ r, .returned t .unlock r ∉ ys

/-- The library has the seed of the thread's transaction. -/
def Thread.Given : Thread → Prop
  | .worker (.handing _) => False
  | _ => True

/-- What the notes of a thread rest on, with what the keyring held at the start. -/
def Justified (start : Purpose → Option String) (before : List Note) : Note → Prop
  | .began _ seed => written start before .tokenSeed = some seed
  | .committed t _ replaced => ∃ seed, replaced = some seed ∧
      written start before .tokenSeed = some seed ∧ Open before t seed True
  | .returned t .lock (.error e) => e = activeTransaction → Locked before t
  | _ => True

structure Inv (start : Purpose → Option String) (os : List Note) (s : System) : Prop where
  locks : ∀ t, (s.threads t).Locks → s.holder = some t
  seed : ∀ t seed, (s.threads t).transaction = some seed → s.keyring .tokenSeed = some seed ∧
    Open os t seed (s.threads t).Given
  slot : ∀ t seed, s.threads t = .worker (.native (some seed)) → Locked os t
  keyring : s.keyring = written start os
  history : AtEach (Justified start) os

theorem Open.append {seed : String} {given given' : Prop} (h : Open os t seed given)
    (hquiet : ∀ n ∈ o, ¬ n.Touches) (hgiven : given' → given ∨ .handed t seed ∈ o) :
    Open (os ++ o) t seed given' := by
  obtain ⟨xs, ys, rfl, hys, hhanded⟩ := h
  refine ⟨xs, ys ++ o, by simp, List.forall_mem_append.2 ⟨hys, hquiet⟩, fun hg => ?_⟩
  rcases hgiven hg with hg | hg
  · exact List.mem_append_left _ (hhanded hg)
  · exact List.mem_append_right _ hg

theorem Locked.append (h : Locked os t) (ho : ∀ r, .returned t .unlock r ∉ o) :
    Locked (os ++ o) t := by
  obtain ⟨xs, ys, rfl, hys⟩ := h
  refine ⟨xs, ys ++ o, by simp, fun r hr => ?_⟩
  rcases List.mem_append.1 hr with hr | hr
  · exact hys r hr
  · exact ho r hr

namespace Inv

variable {start : Purpose → Option String}

theorem initial (h : machine.init s) : Inv s.keyring [] s := by
  obtain ⟨hthreads, hholder⟩ := h
  refine ⟨fun t ht => ?_, fun t seed ht => ?_, fun t seed ht => ?_, rfl, .nil⟩
  · simp [hthreads, Thread.Locks] at ht
  · simp [hthreads, Thread.transaction] at ht
  · simp [hthreads] at ht

/-- The other threads after the step of a thread. -/
theorem others (h : Inv start os s) (hst : Acts s t s' o) {u : Tid} (hu : u ≠ t) :
    ((s'.threads u).Locks → s'.holder = some u) ∧
      (∀ seed, (s'.threads u).transaction = some seed → s'.keyring .tokenSeed = some seed ∧
        Open (os ++ o) u seed (s'.threads u).Given) ∧
      ∀ seed, s'.threads u = .worker (.native (some seed)) → Locked (os ++ o) u := by
  have hapart := hst.apart
  rw [hapart.threads u hu]
  refine ⟨fun hlocks => hapart.holder u hu (h.locks u hlocks), fun seed hseed => ?_,
    fun seed hslot => ?_⟩
  · have hholder := h.locks u (Thread.locks_of_transaction (by simp [hseed]))
    have hno : ¬ (s.threads t).Locks := fun hlocks =>
      hu (Option.some.inj (hholder.symm.trans (h.locks t hlocks)))
    obtain ⟨hkeyring, hopen⟩ := h.seed u seed hseed
    exact ⟨by rw [hapart.keyring hno, hkeyring], hopen.append (hapart.quiet hno) .inl⟩
  · refine (h.slot u seed hslot).append fun r hr => hu ?_
    exact hapart.notes _ hr

/-- What the notes of the step rest on. -/
theorem justified (h : Inv start os s) (hst : Acts s t s' o) :
    AtEach (Justified start) (os ++ o) := by
  cases hst with
  | plain | acquire | take | miss | leave => simpa using h.history
  | active seed hk => exact h.history.snoc fun _ => h.slot t seed hk
  | fail e he => exact h.history.snoc fun heq => absurd heq he
  | read seed hk hseed =>
    rw [h.keyring] at hseed
    exact h.history.snoc hseed
  | hand seed =>
    refine h.history.append_of_mem fun n hn before => ?_
    simp only [List.mem_cons, List.not_mem_nil, or_false] at hn
    rcases hn with rfl | rfl
    · trivial
    · trivial
  | commit seed value r hk =>
    obtain ⟨hkeyring, hopen⟩ := h.seed t seed (by simp [hk, Thread.transaction])
    refine h.history.snoc ⟨seed, hkeyring, h.keyring ▸ hkeyring, ?_⟩
    simpa [hk, Thread.Given] using hopen
  | cancel r => exact h.history.snoc trivial
  | edit | editLast => exact h.history.snoc trivial

/-- The thread itself after its step. -/
theorem own (h : Inv start os s) (hst : Acts s t s' o) :
    ((s'.threads t).Locks → s'.holder = some t) ∧
      (∀ seed, (s'.threads t).transaction = some seed → s'.keyring .tokenSeed = some seed ∧
        Open (os ++ o) t seed (s'.threads t).Given) ∧
      ∀ seed, s'.threads t = .worker (.native (some seed)) → Locked (os ++ o) t := by
  have hself : ∀ (s : System) (k : Thread), (s.set t k).threads t = k :=
    fun s k => Function.update_self ..
  cases hst with
  | plain k hlocks hk =>
    rw [hself]
    refine ⟨fun hl => absurd hl hk, fun seed hseed => ?_, ?_⟩
    · exact absurd (Thread.locks_of_transaction (by simp [hseed])) hk
    · rintro seed rfl
      simp [Thread.Locks] at hk
  | active seed hk =>
    have hlocked := h.slot t seed hk
    -- the transaction goes on: the new note keeps it open
    obtain ⟨hkeyring, hopen⟩ := h.seed t seed (by simp [hk, Thread.transaction])
    refine ⟨h.locks t, fun seed' hseed' => ?_, fun _ _ => hlocked.append (by simp)⟩
    rw [hk] at hseed' hopen ⊢
    cases hseed'
    exact ⟨hkeyring, hopen.append (by simp [Note.Touches]) .inl⟩
  | acquire k hfree hk =>
    have hthread : ({ s.set t k with holder := some t } : System).threads t = k := hself s k
    rw [hthread]
    refine ⟨fun _ => rfl, fun seed hseed => ?_, ?_⟩
    · rcases hk with rfl | ⟨edits, rfl⟩ <;> cases hseed
    · rintro seed rfl
      rcases hk with hk | ⟨edits, hk⟩ <;> cases hk
  | fail | cancel =>
    simp only [System.failLock, System.cancel, hself]
    simp [Thread.Locks, Thread.transaction]
  | leave =>
    rw [hself]
    simp [Thread.Locks, Thread.transaction]
  | read seed hk hseed =>
    rw [hself]
    refine ⟨fun _ => h.locks t (by simp [hk, Thread.Locks]), fun seed' hseed' => ?_, by simp⟩
    cases hseed'
    exact ⟨hseed, os, [], rfl, by simp, by simp [Thread.Given]⟩
  | hand seed hk =>
    obtain ⟨hkeyring, hopen⟩ := h.seed t seed (by simp [hk, Thread.transaction])
    rw [hself]
    refine ⟨fun _ => h.locks t (by simp [hk, Thread.Locks]), fun seed' hseed' => ?_, fun _ _ => ?_⟩
    · cases hseed'
      exact ⟨hkeyring, hopen.append (by simp [Note.Touches]) fun _ => .inr (by simp)⟩
    · exact ⟨os ++ [.handed t seed], [], by simp, by simp⟩
  | take seed value hk =>
    obtain ⟨hkeyring, hopen⟩ := h.seed t seed (by simp [hk, Thread.transaction])
    rw [hself]
    refine ⟨fun _ => h.locks t (by simp [hk, Thread.Locks]), fun seed' hseed' => ?_, by simp⟩
    cases hseed'
    rw [hk] at hopen
    exact ⟨hkeyring, hopen.append (by simp) .inl⟩
  | commit seed value r hk | miss seed value r hk =>
    rw [hself]
    exact ⟨fun _ => h.locks t (by simp [hk, Thread.Locks]), by simp [Thread.transaction], by simp⟩
  | edit p v rest hk =>
    rw [hself]
    exact ⟨fun _ => h.locks t (by simp [hk, Thread.Locks]), by simp [Thread.transaction], by simp⟩
  | editLast p v rest hk =>
    rw [hself]
    simp [Thread.Locks, Thread.transaction]

theorem step {i : Input} (h : Inv start os s) (hst : machine.step s i = some (s', o)) :
    Inv start (os ++ o) s' := by
  obtain ⟨t, hst⟩ | ⟨process, rfl, rfl⟩ := acts_of_step hst
  · have hall : ∀ u, _ := fun u => if hu : u = t then hu ▸ h.own hst else h.others hst hu
    exact ⟨fun u => (hall u).1, fun u => (hall u).2.1, fun u => (hall u).2.2,
      by rw [hst.keyring, h.keyring, written_append], h.justified hst⟩
  · rw [List.append_nil]
    refine ⟨fun u hlocks => ?_, fun u seed hseed => ?_, fun u seed hslot => ?_, h.keyring,
      h.history⟩
    all_goals dsimp only at *
    · split_ifs at hlocks with hu
      · exact hlocks.elim
      · rw [h.locks u hlocks]
        simp [hu]
    · split_ifs at hseed ⊢ with hu
      · cases hseed
      · exact h.seed u seed hseed
    · split_ifs at hslot with hu
      exact h.slot u seed hslot

end Inv

/-- A worker that takes the seed and advances it. -/
def sampleInputs : List Input :=
  [ .start (0, 0), .lock (0, 0), .step (0, 0) .performed, .step (0, 0) .performed,
    .step (0, 0) .performed, .unlock (0, 0) (.ok (some "seed,1")) ]

def sampleStart : System := { keyring := fun p => if p = .tokenSeed then some "seed,0" else none }

end Ocvpn.Credentials
