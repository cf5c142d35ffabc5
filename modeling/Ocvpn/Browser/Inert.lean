import Ocvpn.Browser.Document

/-!
# Inert content

The content of a `script`, `style`, `template` or `textarea` has no influence on a completion, as
long as the limits of the walk are kept.

Two documents that differ in such a content are walked through side by side.  The second walk may
count more events and go deeper, so it is given higher limits; a document within the limits is one
for which higher limits make no difference.

## Main results

* `scan_balanced` : the content leaves no trace but its number of events.
* `completion_inert` : another content leads to the same completion.
-/

namespace Ocvpn.Browser

open Ipc

/-! ### Content -/

/-- An event that neither opens nor closes an element. -/
def Event.Flat : Event → Prop
  | .start tag => htmlVoid tag.name = true
  | .close _ => False
  | _ => True

/-- Every element that is opened is closed. -/
inductive Balanced : List Event → Prop
  | nil : Balanced []
  | flat {ev rest} (hev : ev.Flat) (hrest : Balanced rest) : Balanced (ev :: rest)
  | element {tag inner rest} (htag : htmlVoid tag.name = false) (hinner : Balanced inner)
    (hrest : Balanced rest) : Balanced (.start tag :: (inner ++ .close tag.name :: rest))

/-- The event is accepted in inert content. -/
def Event.Accepted (R : Reader) : Event → Prop
  | .start tag | .empty tag => validateAttributes R tag = .ok ()
  | .generalRef name => ∃ ch, resolveRef R name = .ok ch
  | .docType | .decl | .pi | .bad => False
  | _ => True

/-- The event is one of well formed content: a processing instruction may be there as well. -/
def Event.WellFormed (R : Reader) (ev : Event) : Prop := ev = .pi ∨ ev.Accepted R

section Walk

variable {R : Reader} {L L' : Limits} {nested nested' : Nested} {outerDepth : ℕ}

/-- Inside of an inert element. -/
structure Suppressed (s : Scan) : Prop where
  active : s.active = none
  height : ∃ k, s.suppressed = some k ∧ k ≤ s.stack.length

theorem Suppressed.push {s : Scan} (h : Suppressed s) (name : String) :
    Suppressed { s with stack := name :: s.stack } := by
  obtain ⟨hactive, k, hk, hle⟩ := h
  exact ⟨hactive, k, hk, Nat.le_succ_of_le hle⟩

theorem Suppressed.isSome {s : Scan} (h : Suppressed s) : s.suppressed.isSome = true := by
  obtain ⟨-, k, hk, -⟩ := h
  rw [hk]
  rfl

theorem readTag_suppressed {s : Scan} (h : Suppressed s) (isEmpty : Bool) (tag : Tag) :
    readTag isEmpty tag s = .ok s := by
  rw [readTag, if_pos h.isSome]
  rfl

/-- A tag in inert content: nothing but its element is noticed. -/
theorem openTag_suppressed {s t : Scan} {isEmpty : Bool} {tag : Tag} (hs : Suppressed s) :
    openTag R L outerDepth isEmpty tag s = .ok t ↔ outerDepth + s.stack.length + 1 ≤ L.depth ∧
      validateAttributes R tag = .ok () ∧ t = if !isEmpty && !htmlVoid tag.name then
        { s with stack := tag.name :: s.stack } else s := by
  rw [openTag_eq_ok]
  constructor
  · rintro ⟨hdepth, -, hattributes, s₁, hread, rfl⟩
    cases (readTag_suppressed hs isEmpty tag).symm.trans hread
    exact ⟨hdepth, hattributes, rfl⟩
  · rintro ⟨hdepth, hattributes, rfl⟩
    exact ⟨hdepth, hs.active, hattributes, s, readTag_suppressed hs isEmpty tag, rfl⟩

theorem pushText_suppressed {s : Scan} (hs : Suppressed s) (value : String) :
    pushText value s = .ok s := by
  rw [pushText, hs.active]
  rfl

/-- The end of an element in inert content. -/
theorem closeTag_suppressed {s : Scan} (hs : Suppressed s) (name : String) :
    closeTag name { s with stack := name :: s.stack } = .ok s := by
  obtain ⟨hactive, k, hk, hle⟩ := hs
  refine closeTag_eq_ok.2 ⟨s.stack, rfl, ?_⟩
  -- the inert element is further out
  rw [if_neg (by rw [hk, Option.some.injEq]; omega), ← hactive]

/-- A flat event in inert content changes nothing. -/
theorem step_flat {s t : Scan} {n m : ℕ} {ev : Event} (hs : Suppressed s) (hev : ev.Flat)
    (h : step R L nested outerDepth s n ev = .ok (t, m)) : t = s ∧ m = n := by
  cases ev with
  | start tag =>
    obtain ⟨t₁, hopen, hpure⟩ := Exec.bind_eq_ok.1 h
    cases hpure
    obtain ⟨-, -, rfl⟩ := (openTag_suppressed hs).1 hopen
    have hvoid : htmlVoid tag.name = true := hev
    rw [hvoid]
    exact ⟨rfl, rfl⟩
  | empty tag =>
    obtain ⟨t₁, hopen, hpure⟩ := Exec.bind_eq_ok.1 h
    cases hpure
    obtain ⟨-, -, rfl⟩ := (openTag_suppressed hs).1 hopen
    exact ⟨rfl, rfl⟩
  | close name => exact hev.elim
  | text value =>
    rw [step, pushText_suppressed hs] at h
    cases h
    exact ⟨rfl, rfl⟩
  | cData value =>
    rw [step, pushText_suppressed hs] at h
    cases h
    exact ⟨rfl, rfl⟩
  | generalRef name =>
    obtain ⟨ch, -, h⟩ := Exec.bind_eq_ok.1 h
    rw [pushText_suppressed hs] at h
    cases h
    exact ⟨rfl, rfl⟩
  | comment value =>
    obtain ⟨-, hcomment⟩ := step_comment_eq_ok.1 h
    rwa [hs.isSome, Bool.true_or, if_pos rfl] at hcomment
  | docType => cases h
  | decl => cases h
  | pi => cases h
  | bad => cases h

/-- A flat event that is accepted goes through. -/
theorem step_flat_ok {s : Scan} {n : ℕ} {ev : Event} (hs : Suppressed s) (hev : ev.Flat)
    (hok : ev.Accepted R) (hdepth : outerDepth + s.stack.length + 1 ≤ L.depth) :
    step R L nested outerDepth s n ev = .ok (s, n) := by
  cases ev with
  | start tag =>
    have hvoid : htmlVoid tag.name = true := hev
    refine Exec.bind_eq_ok.2 ⟨s, (openTag_suppressed hs).2 ⟨hdepth, hok, ?_⟩, rfl⟩
    rw [hvoid]
    rfl
  | empty tag => exact Exec.bind_eq_ok.2 ⟨s, (openTag_suppressed hs).2 ⟨hdepth, hok, rfl⟩, rfl⟩
  | close name => exact hev.elim
  | text value => exact Exec.bind_eq_ok.2 ⟨s, pushText_suppressed hs value, rfl⟩
  | cData value => exact Exec.bind_eq_ok.2 ⟨s, pushText_suppressed hs value, rfl⟩
  | generalRef name =>
    obtain ⟨ch, hch⟩ := hok
    exact Exec.bind_eq_ok.2 ⟨ch, hch, Exec.bind_eq_ok.2 ⟨s, pushText_suppressed hs _, rfl⟩⟩
  | comment value =>
    refine step_comment_eq_ok.2 ⟨hs.active, ?_⟩
    rw [hs.isSome, Bool.true_or, if_pos rfl]
    exact ⟨rfl, rfl⟩
  | docType => exact hok.elim
  | decl => exact hok.elim
  | pi => exact hok.elim
  | bad => exact hok.elim

/-- **Inert content leaves no trace** but its number of events. -/
theorem scan_balanced {evs : List Event} {s t : Scan} {n m : ℕ} (hevs : Balanced evs)
    (hs : Suppressed s) (h : scan R L nested outerDepth evs s n = .ok (t, m)) :
    t = s ∧ m = n + evs.length := by
  induction hevs generalizing s n t m with
  | nil =>
    cases h
    exact ⟨rfl, rfl⟩
  | flat hev _ ih =>
    obtain ⟨-, s₁, n₁, hstep, hrest⟩ := scan_cons_eq_ok.1 h
    obtain ⟨rfl, rfl⟩ := step_flat hs hev hstep
    obtain ⟨rfl, rfl⟩ := ih hs hrest
    exact ⟨rfl, by rw [List.length_cons]; omega⟩
  | @element tag inner rest htag _ _ ihinner ihrest =>
    obtain ⟨-, s₁, n₁, hstep, htail⟩ := scan_cons_eq_ok.1 h
    obtain ⟨t₁, hopen, hpure⟩ := Exec.bind_eq_ok.1 hstep
    cases hpure
    obtain ⟨-, -, rfl⟩ := (openTag_suppressed hs).1 hopen
    rw [htag] at htail
    obtain ⟨s₂, n₂, hinner, hclose⟩ := scan_append_eq_ok.1 htail
    obtain ⟨rfl, rfl⟩ := ihinner (hs.push tag.name) hinner
    obtain ⟨-, s₃, n₃, hstep, hrest⟩ := scan_cons_eq_ok.1 hclose
    obtain ⟨t₃, hclosed, hpure⟩ := Exec.bind_eq_ok.1 hstep
    cases hpure
    cases (closeTag_suppressed hs tag.name).symm.trans hclosed
    obtain ⟨rfl, rfl⟩ := ihrest hs hrest
    exact ⟨rfl, by simp only [List.length_cons, List.length_append]; omega⟩

/-- Content that is accepted goes through, within the limits. -/
theorem scan_balanced_ok {evs : List Event} {s : Scan} {n : ℕ} (hevs : Balanced evs)
    (hok : ∀ ev ∈ evs, ev.Accepted R) (hs : Suppressed s) (hevents : n + evs.length ≤ L.events)
    (hdepth : outerDepth + s.stack.length + evs.length ≤ L.depth) :
    scan R L nested outerDepth evs s n = .ok (s, n + evs.length) := by
  induction hevs generalizing s n with
  | nil => rfl
  | @flat ev rest hev _ ih =>
    rw [List.length_cons] at hevents hdepth ⊢
    have hrest := fun ev hmem => hok ev (List.mem_cons_of_mem _ hmem)
    refine scan_cons_eq_ok.2 ⟨by omega, s, n + 1, ?_, ?_⟩
    · exact step_flat_ok hs hev (hok ev List.mem_cons_self) (by omega)
    · rw [ih hrest hs (by omega) (by omega)]
      congr 2
      omega
  | @element tag inner rest htag _ _ ihinner ihrest =>
    simp only [List.length_cons, List.length_append] at hevents hdepth ⊢
    have hinner : ∀ ev ∈ inner, ev.Accepted R := fun ev hmem =>
      hok ev (List.mem_cons_of_mem _ (List.mem_append_left _ hmem))
    have hrest : ∀ ev ∈ rest, ev.Accepted R := fun ev hmem =>
      hok ev (List.mem_cons_of_mem _ (List.mem_append_right _ (List.mem_cons_of_mem _ hmem)))
    let inside : Scan := { s with stack := tag.name :: s.stack }
    refine scan_cons_eq_ok.2 ⟨by omega, inside, n + 1, ?_, scan_append_eq_ok.2
      ⟨inside, n + 1 + inner.length, ?_, scan_cons_eq_ok.2 ⟨by omega, s, n + 1 + inner.length + 1,
        ?_, ?_⟩⟩⟩
    · refine Exec.bind_eq_ok.2 ⟨inside, (openTag_suppressed hs).2 ⟨by omega,
        hok _ List.mem_cons_self, ?_⟩, rfl⟩
      rw [htag]
      rfl
    · refine ihinner hinner (hs.push tag.name) (by omega) ?_
      show outerDepth + (s.stack.length + 1) + inner.length ≤ L.depth
      omega
    · exact Exec.bind_eq_ok.2 ⟨s, closeTag_suppressed hs tag.name, rfl⟩
    · rw [ihrest hrest hs (by omega) (by omega)]
      congr 2
      omega

/-! ### An inert element -/

/-- The inert element is one of the open elements. -/
def Sound (s : Scan) : Prop := ∀ k, s.suppressed = some k → k ≤ s.stack.length

theorem eqIgnoreAsciiCase_trans {a b c : String} (h : eqIgnoreAsciiCase a b = true)
    (h' : eqIgnoreAsciiCase a c = true) : eqIgnoreAsciiCase b c = true := by
  simp only [eqIgnoreAsciiCase, beq_iff_eq] at h h' ⊢
  rw [← h, h']

/-- An inert element has an end tag. -/
theorem htmlVoid_of_inert {name : String} (h : inert name = true) : htmlVoid name = false := by
  rw [Bool.eq_false_iff]
  intro hvoid
  obtain ⟨a, ha, hname⟩ := List.any_eq_true.1 h
  obtain ⟨b, hb, hname'⟩ := List.any_eq_true.1 hvoid
  have hnone : ∀ a ∈ inertNames, ∀ b ∈ voidNames, eqIgnoreAsciiCase a b = false := by
    decide +kernel
  have hsame := eqIgnoreAsciiCase_trans hname hname'
  rw [hnone a ha b hb] at hsame
  cases hsame

theorem readTag_sound {isEmpty : Bool} {tag : Tag} {s t : Scan} (hs : Sound s)
    (h : readTag isEmpty tag s = .ok t) : t.stack = s.stack ∧
      ∀ k, t.suppressed = some k →
        k ≤ s.stack.length ∨ (k = s.stack.length + 1 ∧ isEmpty = false ∧ inert tag.name = true) := by
  obtain ⟨-, rfl⟩ | ⟨-, hinert, rfl⟩ | ⟨-, -, -, rfl⟩ | ⟨i, -, -, -, -, rfl⟩ := readTag_cases h
  · exact ⟨rfl, fun k hk => .inl (hs k hk)⟩
  · cases isEmpty with
    | true => exact ⟨rfl, fun k hk => .inl (hs k hk)⟩
    | false =>
      refine ⟨rfl, fun k hk => .inr ⟨?_, rfl, hinert⟩⟩
      exact (Option.some.inj hk).symm
  · exact ⟨rfl, fun k hk => .inl (hs k hk)⟩
  · exact ⟨rfl, fun k hk => .inl (hs k hk)⟩

theorem openTag_sound {isEmpty : Bool} {tag : Tag} {s t : Scan} (hs : Sound s)
    (h : openTag R L outerDepth isEmpty tag s = .ok t) : Sound t := by
  obtain ⟨-, -, -, s₁, hread, rfl⟩ := openTag_eq_ok.1 h
  obtain ⟨hstack, hsuppressed⟩ := readTag_sound hs hread
  intro k hk
  cases isEmpty with
  | true =>
    obtain hle | ⟨-, hempty, -⟩ := hsuppressed k hk
    · exact hstack ▸ hle
    · cases hempty
  | false =>
    cases hvoid : htmlVoid tag.name with
    | true =>
      rw [hvoid] at hk
      obtain hle | ⟨-, -, hinert⟩ := hsuppressed k hk
      · exact hstack ▸ hle
      · rw [htmlVoid_of_inert hinert] at hvoid
        cases hvoid
    | false =>
      rw [hvoid] at hk
      show k ≤ s₁.stack.length + 1
      rw [hstack]
      obtain hle | ⟨rfl, -⟩ := hsuppressed k hk
      · exact Nat.le_succ_of_le hle
      · exact le_rfl

theorem step_sound {ev : Event} {s t : Scan} {n m : ℕ} (hs : Sound s)
    (h : step R L nested outerDepth s n ev = .ok (t, m)) : Sound t := by
  have hpush : ∀ value t, pushText value s = .ok t → Sound t := by
    intro value t h k hk
    obtain ⟨hstack, hsuppressed, -⟩ := pushText_isSome h
    rw [hstack]
    exact hs k (hsuppressed ▸ hk)
  cases ev with
  | start tag =>
    obtain ⟨t, ht, hpure⟩ := Exec.bind_eq_ok.1 h
    cases hpure
    exact openTag_sound hs ht
  | empty tag =>
    obtain ⟨t, ht, hpure⟩ := Exec.bind_eq_ok.1 h
    cases hpure
    exact openTag_sound hs ht
  | close name =>
    obtain ⟨t, ht, hpure⟩ := Exec.bind_eq_ok.1 h
    cases hpure
    obtain ⟨stack, hstack, rfl⟩ := closeTag_eq_ok.1 ht
    intro k hk
    dsimp only at hk
    split_ifs at hk with hout
    have hle := hs k hk
    rw [hstack, List.length_cons] at hle
    have hne : k ≠ stack.length + 1 := fun heq => hout (heq ▸ hk)
    show k ≤ stack.length
    omega
  | text value =>
    obtain ⟨t, ht, hpure⟩ := Exec.bind_eq_ok.1 h
    cases hpure
    exact hpush value t ht
  | cData value =>
    obtain ⟨t, ht, hpure⟩ := Exec.bind_eq_ok.1 h
    cases hpure
    exact hpush value t ht
  | generalRef name =>
    obtain ⟨ch, -, h⟩ := Exec.bind_eq_ok.1 h
    obtain ⟨t, ht, hpure⟩ := Exec.bind_eq_ok.1 h
    cases hpure
    exact hpush _ t ht
  | comment value =>
    obtain ⟨-, hcomment⟩ := step_comment_eq_ok.1 h
    split_ifs at hcomment
    · obtain ⟨rfl, -⟩ := hcomment
      exact hs
    · obtain ⟨fields, -, rfl⟩ := hcomment
      exact hs
  | docType => cases h
  | decl => cases h
  | pi => cases h
  | bad => cases h

theorem scan_sound {evs : List Event} {s t : Scan} {n m : ℕ} (hs : Sound s)
    (h : scan R L nested outerDepth evs s n = .ok (t, m)) : Sound t := by
  induction evs generalizing s n with
  | nil =>
    cases h
    exact hs
  | cons ev evs ih =>
    obtain ⟨-, s₁, n₁, hstep, hrest⟩ := scan_cons_eq_ok.1 h
    exact ih (step_sound hs hstep) hrest

/-- The content of an inert element is walked through inside of it. -/
def entered (name : String) (s : Scan) : Scan :=
  { s with
    stack := name :: s.stack
    suppressed := if s.suppressed.isSome then s.suppressed else some (s.stack.length + 1) }

theorem entered_suppressed {name : String} {s : Scan} (hs : Sound s) (hactive : s.active = none) :
    Suppressed (entered name s) := by
  refine ⟨hactive, ?_⟩
  rw [entered]
  cases hsuppressed : s.suppressed with
  | none => exact ⟨_, rfl, le_rfl⟩
  | some k => exact ⟨k, rfl, Nat.le_succ_of_le (hs k hsuppressed)⟩

theorem openTag_entered {tag : Tag} {s t : Scan} (hinert : inert tag.name = true) :
    openTag R L outerDepth false tag s = .ok t ↔ outerDepth + s.stack.length + 1 ≤ L.depth ∧
      s.active = none ∧ validateAttributes R tag = .ok () ∧ t = entered tag.name s := by
  have hread : readTag false tag s = .ok { s with suppressed :=
      if s.suppressed.isSome then s.suppressed else some (s.stack.length + 1) } := by
    rw [readTag]
    by_cases hsuppressed : s.suppressed.isSome = true
    · rw [if_pos hsuppressed, if_pos hsuppressed]
      rfl
    · rw [if_neg hsuppressed, if_neg hsuppressed, if_pos hinert]
      rfl
  rw [openTag_eq_ok, hread, htmlVoid_of_inert hinert]
  simp [entered]

theorem closeTag_entered {name : String} {s : Scan} (hs : Sound s) (hactive : s.active = none) :
    closeTag name (entered name s) = .ok s := by
  refine closeTag_eq_ok.2 ⟨s.stack, rfl, ?_⟩
  obtain ⟨fields, stack, active, suppressed⟩ := s
  obtain rfl : active = none := hactive
  cases suppressed with
  | none => simp [entered]
  | some k =>
    have hle : k ≤ stack.length := hs k rfl
    have hne : k ≠ stack.length + 1 := by omega
    simp [entered, hne]

/-- **An inert element is passed over**, with any content. -/
theorem scan_inert {tag : Tag} {content post : List Event} {s t : Scan} {n m : ℕ} (hs : Sound s)
    (hinert : inert tag.name = true) (hcontent : Balanced content)
    (h : scan R L nested outerDepth (.start tag :: (content ++ .close tag.name :: post)) s n =
      .ok (t, m)) :
    n + content.length + 2 ≤ L.events ∧ outerDepth + s.stack.length + 1 ≤ L.depth ∧
      s.active = none ∧ validateAttributes R tag = .ok () ∧
      scan R L nested outerDepth post s (n + content.length + 2) = .ok (t, m) := by
  obtain ⟨-, s₁, n₁, hstep, htail⟩ := scan_cons_eq_ok.1 h
  obtain ⟨t₁, hopen, hpure⟩ := Exec.bind_eq_ok.1 hstep
  cases hpure
  obtain ⟨hdepth, hactive, hattributes, rfl⟩ := (openTag_entered hinert).1 hopen
  obtain ⟨s₂, n₂, hinner, hclose⟩ := scan_append_eq_ok.1 htail
  obtain ⟨rfl, rfl⟩ := scan_balanced hcontent (entered_suppressed hs hactive) hinner
  obtain ⟨hevents, s₃, n₃, hstep, hrest⟩ := scan_cons_eq_ok.1 hclose
  obtain ⟨t₃, hclosed, hpure⟩ := Exec.bind_eq_ok.1 hstep
  cases hpure
  cases (closeTag_entered hs hactive).symm.trans hclosed
  have hn : n + 1 + content.length + 1 = n + content.length + 2 := by omega
  rw [hn] at hevents hrest
  exact ⟨hevents, hdepth, hactive, hattributes, hrest⟩

theorem scan_inert_ok {tag : Tag} {content post : List Event} {s t : Scan} {n m : ℕ}
    (hs : Sound s) (hinert : inert tag.name = true) (hcontent : Balanced content)
    (hok : ∀ ev ∈ content, ev.Accepted R) (hactive : s.active = none)
    (hattributes : validateAttributes R tag = .ok ())
    (hevents : n + content.length + 2 ≤ L.events)
    (hdepth : outerDepth + s.stack.length + 1 + content.length ≤ L.depth)
    (h : scan R L nested outerDepth post s (n + content.length + 2) = .ok (t, m)) :
    scan R L nested outerDepth (.start tag :: (content ++ .close tag.name :: post)) s n =
      .ok (t, m) := by
  have hn : n + 1 + content.length + 1 = n + content.length + 2 := by omega
  refine scan_cons_eq_ok.2 ⟨by omega, entered tag.name s, n + 1, ?_, scan_append_eq_ok.2
    ⟨entered tag.name s, n + 1 + content.length, ?_, scan_cons_eq_ok.2 ⟨by omega, s,
      n + 1 + content.length + 1, ?_, hn ▸ h⟩⟩⟩
  · exact Exec.bind_eq_ok.2 ⟨_, (openTag_entered hinert).2 ⟨by omega, hactive, hattributes, rfl⟩,
      rfl⟩
  · refine scan_balanced_ok hcontent hok (entered_suppressed hs hactive) (by omega) ?_
    show outerDepth + (s.stack.length + 1) + content.length ≤ L.depth
    omega
  · exact Exec.bind_eq_ok.2 ⟨s, closeTag_entered hs hactive, rfl⟩

/-! ### Two walks side by side -/

/-- One nested walk repeats what another one does, from a number of events that is larger by at most
the given slack. -/
def Extends (a : ℕ) (nested nested' : Nested) : Prop :=
  ∀ value fields n depth out m, nested value fields n depth = .ok (out, m) →
    ∀ n' ≤ n + a, ∃ m' ≤ m + a, nested' value fields n' depth = .ok (out, m')

theorem step_extends {a : ℕ} {ev : Event} {s t : Scan} {n m n' : ℕ}
    (hnested : Extends a nested nested') (hdepth : L.depth ≤ L'.depth) (hn : n' ≤ n + a)
    (h : step R L nested outerDepth s n ev = .ok (t, m)) :
    ∃ m' ≤ m + a, step R L' nested' outerDepth s n' ev = .ok (t, m') := by
  by_cases hev : ∃ value, ev = .comment value
  · obtain ⟨value, rfl⟩ := hev
    obtain ⟨hactive, hcomment⟩ := step_comment_eq_ok.1 h
    by_cases hskip : (s.suppressed.isSome || !value.toList.contains '<') = true
    · rw [if_pos hskip] at hcomment
      obtain ⟨rfl, rfl⟩ := hcomment
      exact ⟨n', hn, step_comment_eq_ok.2 ⟨hactive, by rw [if_pos hskip]; exact ⟨rfl, rfl⟩⟩⟩
    · rw [if_neg hskip] at hcomment
      obtain ⟨fields, hok, rfl⟩ := hcomment
      obtain ⟨m', hm', hok'⟩ := hnested _ _ _ _ _ _ hok n' hn
      exact ⟨m', hm', step_comment_eq_ok.2 ⟨hactive, by rw [if_neg hskip]; exact ⟨_, hok', rfl⟩⟩⟩
  · obtain ⟨rfl, hsame⟩ := step_of_not_comment (fun value hvalue => hev ⟨value, hvalue⟩) h
    exact ⟨n', hn, hsame L' nested' n' hdepth⟩

theorem scan_extends {a : ℕ} {evs : List Event} {s t : Scan} {n m n' : ℕ}
    (hnested : Extends a nested nested') (hdepth : L.depth ≤ L'.depth)
    (hevents : L.events + a ≤ L'.events) (hn : n' ≤ n + a)
    (h : scan R L nested outerDepth evs s n = .ok (t, m)) :
    ∃ m' ≤ m + a, scan R L' nested' outerDepth evs s n' = .ok (t, m') := by
  induction evs generalizing s n n' with
  | nil =>
    cases h
    exact ⟨n', hn, rfl⟩
  | cons ev evs ih =>
    obtain ⟨hlimit, s₁, n₁, hstep, hrest⟩ := scan_cons_eq_ok.1 h
    have hn₁ : n' + 1 ≤ n + 1 + a := by omega
    obtain ⟨m₁, hm₁, hstep'⟩ := step_extends hnested hdepth hn₁ hstep
    obtain ⟨m', hm', hrest'⟩ := ih hm₁ hrest
    exact ⟨m', hm', scan_cons_eq_ok.2 ⟨by omega, s₁, m₁, hstep', hrest'⟩⟩

/-- The same text, with higher limits. -/
theorem fragment_extends {a k k' : ℕ} (hk : k ≤ k') (hdepth : L.depth ≤ L'.depth)
    (hevents : L.events + a ≤ L'.events) : Extends a (fragment R L k) (fragment R L' k') := by
  induction k generalizing k' with
  | zero => exact fun _ _ _ _ _ _ h => by cases h
  | succ k ih =>
    obtain ⟨k', rfl⟩ := Nat.exists_eq_add_of_le' (Nat.lt_of_lt_of_le k.succ_pos hk)
    have hnested : Extends a (fragment R L k) (fragment R L' k') := ih (by omega)
    intro value fields n depth out m h n' hn
    obtain ⟨s, n₁, hscan, hlimit, hstack, rfl, rfl⟩ := fragment_succ_eq_ok.1 h
    obtain ⟨m', hm', hscan'⟩ := scan_extends hnested hdepth hevents hn hscan
    exact ⟨m' + 1, by omega, fragment_succ_eq_ok.2
      ⟨s, m', hscan', by omega, hstack, rfl, rfl⟩⟩

/-! ### Replacing content -/

variable (R) in
/-- A document in which the content of an inert element was replaced by events that are allowed,
directly or in a comment. -/
inductive Replaced (allowed : Event → Prop) : String → String → Prop
  | element {head raw content content' tail : String} {pre inner inner' post : List Event}
    {tag : Tag} (hevents : R.events (head ++ "<" ++ raw ++ ">" ++ content ++ tail) =
      pre ++ .start tag :: (inner ++ .close tag.name :: post))
    (hevents' : R.events (head ++ "<" ++ raw ++ ">" ++ content' ++ tail) =
      pre ++ .start tag :: (inner' ++ .close tag.name :: post))
    (hinert : inert tag.name = true) (hinner : Balanced inner) (hinner' : Balanced inner')
    (hok : ∀ ev ∈ inner', allowed ev) (hchars : ∀ c ∈ content'.toList, xmlChar c = true) :
    Replaced allowed (head ++ "<" ++ raw ++ ">" ++ content ++ tail)
      (head ++ "<" ++ raw ++ ">" ++ content' ++ tail)
  | comment {head value value' tail : String} {pre post : List Event}
    (hevents : R.events (head ++ "<!--" ++ value ++ tail) = pre ++ .comment value :: post)
    (hevents' : R.events (head ++ "<!--" ++ value' ++ tail) = pre ++ .comment value' :: post)
    (hvalue : Replaced allowed value value') :
    Replaced allowed (head ++ "<!--" ++ value ++ tail) (head ++ "<!--" ++ value' ++ tail)

/-- A text that is searched for at the start is not looked for beyond a character it does not have. -/
theorem isPrefixOf_append_congr {c : Char} {text head rest rest' : List Char} (htext : c ∉ text)
    (hhead : c ∈ head) : text.isPrefixOf (head ++ rest) = text.isPrefixOf (head ++ rest') := by
  induction text generalizing head with
  | nil => simp
  | cons a text ih =>
    rw [List.mem_cons, not_or] at htext
    cases head with
    | nil => cases hhead
    | cons b head =>
      simp only [List.cons_append, List.isPrefixOf_cons_cons]
      by_cases hab : a = b
      · subst hab
        have hmem : c ∈ head := (List.mem_cons.1 hhead).resolve_left htext.1
        rw [ih htext.2 hmem]
      · rw [beq_false_of_ne hab, Bool.false_and, Bool.false_and]

theorem dropWhile_append_of_mem {α : Type} {p : α → Bool} {a : α} {as : List α} (ha : a ∈ as)
    (hp : p a = false) :
    a ∈ as.dropWhile p ∧ ∀ bs, (as ++ bs).dropWhile p = as.dropWhile p ++ bs := by
  induction as with
  | nil => cases ha
  | cons b as ih =>
    by_cases hb : p b = true
    · have hne : a ≠ b := fun heq => by simp [← heq, hp] at hb
      have hmem : a ∈ as := (List.mem_cons.1 ha).resolve_left hne
      simp only [List.cons_append, List.dropWhile_cons_of_pos hb]
      exact ih hmem
    · simp only [List.cons_append, List.dropWhile_cons_of_neg hb]
      exact ⟨ha, fun _ => trivial⟩

namespace Replaced

variable {allowed : Event → Prop} {d d' : String}

/-- The two texts have the same beginning, which holds markup. -/
theorem exists_head (h : Replaced R allowed d d') : ∃ head rest rest' : List Char,
    '<' ∈ head ∧ d.toList = head ++ rest ∧ d'.toList = head ++ rest' := by
  cases h with
  | @element head raw content content' tail =>
    refine ⟨(head ++ "<" ++ raw ++ ">").toList, (content ++ tail).toList,
      (content' ++ tail).toList, ?_, ?_, ?_⟩
    · simp
    · simp [String.toList_append]
    · simp [String.toList_append]
  | @comment head value value' tail =>
    refine ⟨(head ++ "<!--").toList, (value ++ tail).toList, (value' ++ tail).toList, ?_, ?_, ?_⟩
    · simp
    · simp [String.toList_append]
    · simp [String.toList_append]

theorem contains (h : Replaced R allowed d d') :
    d.toList.contains '<' = true ∧ d'.toList.contains '<' = true := by
  obtain ⟨head, rest, rest', hmem, hd, hd'⟩ := h.exists_head
  rw [hd, hd', List.contains_iff_mem, List.contains_iff_mem]
  exact ⟨List.mem_append_left _ hmem, List.mem_append_left _ hmem⟩

/-- The other content has no characters that XML forbids. -/
theorem forall_xmlChar (h : Replaced R allowed d d') (hd : ∀ c ∈ d.toList, xmlChar c = true) :
    ∀ c ∈ d'.toList, xmlChar c = true := by
  induction h with
  | element _ _ _ _ _ _ hchars =>
    simp only [String.toList_append, List.mem_append] at hd ⊢
    intro c hc
    obtain ((hc | hc) | hc) := hc
    · exact hd c (.inl (.inl hc))
    · exact hchars c hc
    · exact hd c (.inr hc)
  | comment _ _ _ ih =>
    simp only [String.toList_append, List.mem_append] at hd ⊢
    have hvalue := ih fun c hc => hd c (.inl (.inr hc))
    intro c hc
    obtain ((hc | hc) | hc) := hc
    · exact hd c (.inl (.inl hc))
    · exact hvalue c hc
    · exact hd c (.inr hc)

/-- **The two texts are walked through alike**, when the second one has higher limits. -/
theorem exists_slack (h : Replaced R (Event.Accepted R) d d') : ∃ a, ∀ (L L' : Limits) b k k',
    k ≤ k' → L.depth + a ≤ L'.depth → L.events + b + a ≤ L'.events →
    ∀ fields n depth out m, fragment R L k d fields n depth = .ok (out, m) →
      ∀ n' ≤ n + b, ∃ m' ≤ m + b + a, fragment R L' k' d' fields n' depth = .ok (out, m') := by
  induction h with
  | @element head raw content content' tail pre inner inner' post tag hevents hevents' hinert hinner
      hinner' hok _ =>
    -- each event of `inner'` costs one event and at most one level
    refine ⟨inner'.length, fun L L' b k k' hk hdepth hlimit fields n depth out m h n' hn => ?_⟩
    have hdepth' : L.depth ≤ L'.depth := by omega
    have hb : L.events + b ≤ L'.events := by omega
    have ha : L.events + (b + inner'.length) ≤ L'.events := by omega
    cases k with
    | zero => cases h
    | succ k =>
      obtain ⟨k', rfl⟩ := Nat.exists_eq_add_of_le' (Nat.lt_of_lt_of_le k.succ_pos hk)
      have hkk : k ≤ k' := by omega
      obtain ⟨s, n₁, hscan, hend, hstack, rfl, rfl⟩ := fragment_succ_eq_ok.1 h
      rw [hevents] at hscan
      obtain ⟨s₁, n₂, hpre, helement⟩ := scan_append_eq_ok.1 hscan
      have hsound : Sound s₁ := scan_sound (fun k hk => by cases hk) hpre
      obtain ⟨hcount, htag, hactive, hattributes, hpost⟩ := scan_inert hsound hinert hinner helement
      obtain ⟨n₂', hn₂, hpre'⟩ :=
        scan_extends (fragment_extends hkk hdepth' hb) hdepth' hb hn hpre
      have hn₃ : n₂' + inner'.length + 2 ≤ n₂ + inner.length + 2 + (b + inner'.length) := by omega
      obtain ⟨m', hm', hpost'⟩ :=
        scan_extends (fragment_extends hkk hdepth' ha) hdepth' ha hn₃ hpost
      have hcount' : n₂' + inner'.length + 2 ≤ L'.events := by omega
      have htag' : depth + s₁.stack.length + 1 + inner'.length ≤ L'.depth := by omega
      refine ⟨m' + 1, by omega, fragment_succ_eq_ok.2 ⟨s, m', ?_, by omega, hstack, rfl, rfl⟩⟩
      rw [hevents']
      exact scan_append_eq_ok.2 ⟨s₁, n₂', hpre', scan_inert_ok hsound hinert hinner' hok hactive
        hattributes hcount' htag' hpost'⟩
  | @comment head value value' tail pre post hevents hevents' hvalue ih =>
    obtain ⟨a, ih⟩ := ih
    refine ⟨a, fun L L' b k k' hk hdepth hlimit fields n depth out m h n' hn => ?_⟩
    have hdepth' : L.depth ≤ L'.depth := by omega
    have hb : L.events + b ≤ L'.events := by omega
    have ha : L.events + (b + a) ≤ L'.events := by omega
    cases k with
    | zero => cases h
    | succ k =>
      obtain ⟨k', rfl⟩ := Nat.exists_eq_add_of_le' (Nat.lt_of_lt_of_le k.succ_pos hk)
      have hkk : k ≤ k' := by omega
      obtain ⟨s, n₁, hscan, hend, hstack, rfl, rfl⟩ := fragment_succ_eq_ok.1 h
      rw [hevents] at hscan
      obtain ⟨s₁, n₂, hpre, hcomment⟩ := scan_append_eq_ok.1 hscan
      obtain ⟨hcount, s₂, n₃, hstep, hpost⟩ := scan_cons_eq_ok.1 hcomment
      obtain ⟨n₂', hn₂, hpre'⟩ :=
        scan_extends (fragment_extends hkk hdepth' hb) hdepth' hb hn hpre
      -- the comment is read again, as a document of its own
      have hstep' : ∃ n₃' ≤ n₃ + b + a, step R L' (fragment R L' k') depth s₁ (n₂' + 1)
          (.comment value') = .ok (s₂, n₃') := by
        obtain ⟨hactive, hstep⟩ := step_comment_eq_ok.1 hstep
        obtain ⟨hmarkup, hmarkup'⟩ := hvalue.contains
        rw [hmarkup] at hstep
        by_cases hskip : s₁.suppressed.isSome = true
        · rw [if_pos (by rw [hskip]; rfl)] at hstep
          obtain ⟨rfl, rfl⟩ := hstep
          refine ⟨n₂' + 1, by omega, step_comment_eq_ok.2 ⟨hactive, ?_⟩⟩
          rw [if_pos (by rw [hskip]; rfl)]
          exact ⟨rfl, rfl⟩
        · rw [if_neg (by simpa using hskip)] at hstep
          obtain ⟨fields', hok, rfl⟩ := hstep
          have hn₃ : n₂' + 1 ≤ n₂ + 1 + b := by omega
          obtain ⟨n₃', hn₃, hok'⟩ := ih L L' b k k' hkk hdepth hlimit _ _ _ _ _ hok _ hn₃
          refine ⟨n₃', hn₃, step_comment_eq_ok.2 ⟨hactive, ?_⟩⟩
          rw [hmarkup', if_neg (by simpa using hskip)]
          exact ⟨fields', hok', rfl⟩
      obtain ⟨n₃', hn₃, hstep'⟩ := hstep'
      have hn₃' : n₃' ≤ n₃ + (b + a) := by omega
      obtain ⟨m', hm', hpost'⟩ :=
        scan_extends (fragment_extends hkk hdepth' ha) hdepth' ha hn₃' hpost
      refine ⟨m' + 1, by omega, fragment_succ_eq_ok.2 ⟨s, m', ?_, by omega, hstack, rfl, rfl⟩⟩
      rw [hevents']
      exact scan_append_eq_ok.2 ⟨s₁, n₂', hpre', scan_cons_eq_ok.2
        ⟨by omega, s₂, n₃', hstep', hpost'⟩⟩

/-- Whether a text is a token for CAS is decided before its first tag. -/
theorem casPrefix_congr (h : Replaced R allowed d d') :
    casPrefix.isPrefixOf (d.toList.dropWhile isWhitespace) =
      casPrefix.isPrefixOf (d'.toList.dropWhile isWhitespace) := by
  obtain ⟨head, rest, rest', hmem, hd, hd'⟩ := h.exists_head
  have hspace : isWhitespace '<' = false := by decide
  have hprefix : '<' ∉ casPrefix := by decide
  obtain ⟨hhead, hdrop⟩ := dropWhile_append_of_mem hmem hspace
  rw [hd, hd', hdrop, hdrop]
  exact isPrefixOf_append_congr hprefix hhead

end Replaced

/-! ### Within the limits -/

/-- What an event counts for, with the count of a comment. -/
def Event.count (nested : String → ℕ) : Event → ℕ
  | .comment value => nested value + 1
  | _ => 1

/-- The height of the stack after an event. -/
def Event.heightAfter (height : ℕ) : Event → ℕ
  | .start tag => if htmlVoid tag.name then height else height + 1
  | .close _ => height - 1
  | _ => height

/-- The depth that an event gets to. -/
def Event.depth (nested : String → ℕ) (height : ℕ) : Event → ℕ
  | .start _ | .empty _ => height + 1
  | .comment value => height + 1 + nested value
  | _ => 0

/-- The depth that events get to. -/
def depthOf (nested : String → ℕ) : List Event → ℕ → ℕ
  | [], _ => 0
  | ev :: evs, height => max (ev.depth nested height) (depthOf nested evs (ev.heightAfter height))

namespace Reader

variable (R : Reader)

/-- The events of a text, with its end and with those of so many levels of comments. -/
def countIn : ℕ → String → ℕ
  | 0, _ => 0
  | k + 1, input => ((R.events input).map (Event.count (countIn k))).sum + 1

/-- The depth of a text and of so many levels of comments. -/
def depthIn : ℕ → String → ℕ
  | 0, _ => 0
  | k + 1, input => depthOf (depthIn k) (R.events input) 0

/-- The number of events of a document. -/
def count (input : String) : ℕ := R.countIn (input.length + 1) input

/-- The nesting depth of a document. -/
def depth (input : String) : ℕ := R.depthIn (input.length + 1) input

end Reader

section Fitting

variable {nested nested' : Nested} {count depth : String → ℕ}

/-- A walk through a text of so many events and of this depth is the same with higher limits. -/
structure Fitting (L L' : Limits) (nested nested' : Nested) (count depth : String → ℕ) : Prop where
  more : L.events ≤ L'.events
  deeper : L.depth ≤ L'.depth
  same : ∀ value fields n o, n + count value ≤ L.events → o + depth value ≤ L.depth →
    nested' value fields n o = nested value fields n o
  counted : ∀ value fields n o out m, nested value fields n o = .ok (out, m) → m ≤ n + count value

/-- The height of the stack after an event that is accepted. -/
theorem step_height {ev : Event} {s t : Scan} {n m : ℕ}
    (hstep : step R L nested outerDepth s n ev = .ok (t, m)) :
    t.stack.length = ev.heightAfter s.stack.length := by
  have hread : ∀ {isEmpty tag} {s₁ : Scan}, readTag isEmpty tag s = .ok s₁ →
      s₁.stack = s.stack := by
    intro isEmpty tag s₁ hread
    obtain ⟨-, rfl⟩ | ⟨-, -, rfl⟩ | ⟨-, -, -, rfl⟩ | ⟨i, -, -, -, -, rfl⟩ := readTag_cases hread
    · rfl
    · split_ifs <;> rfl
    · rfl
    · rfl
  cases ev with
  | start tag =>
    obtain ⟨t₁, hopen, hpure⟩ := Exec.bind_eq_ok.1 hstep
    cases hpure
    obtain ⟨-, -, -, s₁, hs₁, rfl⟩ := openTag_eq_ok.1 hopen
    simp only [Event.heightAfter, ← hread hs₁]
    cases htmlVoid tag.name <;> rfl
  | empty tag =>
    obtain ⟨t₁, hopen, hpure⟩ := Exec.bind_eq_ok.1 hstep
    cases hpure
    obtain ⟨-, -, -, s₁, hs₁, rfl⟩ := openTag_eq_ok.1 hopen
    exact congrArg List.length (hread hs₁)
  | close name =>
    obtain ⟨t₁, hclose, hpure⟩ := Exec.bind_eq_ok.1 hstep
    cases hpure
    obtain ⟨stack, hstack, rfl⟩ := closeTag_eq_ok.1 hclose
    simp [Event.heightAfter, hstack]
  | text value | cData value =>
    obtain ⟨t₁, hpush, hpure⟩ := Exec.bind_eq_ok.1 hstep
    cases hpure
    exact congrArg List.length (pushText_isSome hpush).1
  | generalRef name =>
    obtain ⟨ch, -, hstep⟩ := Exec.bind_eq_ok.1 hstep
    obtain ⟨t₁, hpush, hpure⟩ := Exec.bind_eq_ok.1 hstep
    cases hpure
    exact congrArg List.length (pushText_isSome hpush).1
  | comment value =>
    obtain ⟨-, hrest⟩ := step_comment_eq_ok.1 hstep
    split_ifs at hrest
    · rw [hrest.1]
      rfl
    · obtain ⟨fields, -, rfl⟩ := hrest
      rfl
  | docType | decl | pi | bad => cases hstep

namespace Fitting

variable (h : Fitting L L' nested nested' count depth)

include h

theorem openTag {s : Scan} {isEmpty : Bool} {tag : Tag}
    (hdepth : outerDepth + s.stack.length + 1 ≤ L.depth) :
    openTag R L' outerDepth isEmpty tag s = openTag R L outerDepth isEmpty tag s := by
  have hlow : ¬ outerDepth + s.stack.length + 1 > L.depth := by omega
  have hhigh : ¬ outerDepth + s.stack.length + 1 > L'.depth := fun hlt => hlow (hlt.trans_le' h.deeper)
  rw [Browser.openTag, Browser.openTag, decide_eq_false hlow, decide_eq_false hhigh]

/-- One event, with higher limits. -/
theorem step_eq {ev : Event} {s : Scan} {n : ℕ} (hevents : n + ev.count count ≤ L.events + 1)
    (hdepth : outerDepth + ev.depth depth s.stack.length ≤ L.depth) :
    step R L' nested' outerDepth s n ev = step R L nested outerDepth s n ev := by
  cases ev with
  | start tag => rw [step, step, h.openTag hdepth]
  | empty tag => rw [step, step, h.openTag hdepth]
  | comment value =>
    have hsame := h.same value s.fields n (outerDepth + s.stack.length + 1)
      (by simp only [Event.count] at hevents; omega) (by simp only [Event.depth] at hdepth; omega)
    rw [step, step, hsame]
  | _ => rfl

/-- What one event counts. -/
theorem step_counted {ev : Event} {s t : Scan} {n m : ℕ}
    (hstep : step R L nested outerDepth s n ev = .ok (t, m)) : m + 1 ≤ n + ev.count count := by
  by_cases hcomment : ∃ value, ev = .comment value
  · obtain ⟨value, rfl⟩ := hcomment
    obtain ⟨-, hrest⟩ := step_comment_eq_ok.1 hstep
    rw [Event.count]
    split_ifs at hrest
    · omega
    · obtain ⟨fields, hok, -⟩ := hrest
      have hcounted := h.counted _ _ _ _ _ _ hok
      omega
  · have hev : ∀ value, ev ≠ .comment value := fun value hvalue => hcomment ⟨value, hvalue⟩
    rw [(step_of_not_comment hev hstep).1]
    have hpos : 1 ≤ ev.count count := by cases ev <;> simp [Event.count]
    omega

theorem scan_counted {evs : List Event} {s t : Scan} {n m : ℕ}
    (hscan : scan R L nested outerDepth evs s n = .ok (t, m)) :
    m ≤ n + (evs.map (Event.count count)).sum := by
  induction evs generalizing s n with
  | nil =>
    cases hscan
    exact le_rfl
  | cons ev evs ih =>
    obtain ⟨-, s₁, n₁, hstep, hrest⟩ := scan_cons_eq_ok.1 hscan
    have hn₁ := h.step_counted hstep
    have hm := ih hrest
    rw [List.map_cons, List.sum_cons]
    omega

/-- A walk, with higher limits. -/
theorem scan_eq {evs : List Event} {s : Scan} {n : ℕ}
    (hevents : n + (evs.map (Event.count count)).sum ≤ L.events)
    (hdepth : outerDepth + depthOf depth evs s.stack.length ≤ L.depth) :
    scan R L' nested' outerDepth evs s n = scan R L nested outerDepth evs s n := by
  induction evs generalizing s n with
  | nil => rfl
  | cons ev evs ih =>
    rw [List.map_cons, List.sum_cons] at hevents
    rw [depthOf] at hdepth
    have hpos : 1 ≤ ev.count count := by cases ev <;> simp [Event.count]
    have htick : ∀ M : Limits, n + 1 ≤ M.events → tick M n = .ok (n + 1) :=
      fun M hM => tick_eq_ok.2 ⟨hM, rfl⟩
    have hstep : step R L' nested' outerDepth s (n + 1) ev =
        step R L nested outerDepth s (n + 1) ev := h.step_eq (by omega) (by omega)
    -- the event is paid for under both limits, and so is the rest at the height it leaves
    have hle := h.more
    rw [scan, scan, htick L (by omega), htick L' (by omega)]
    simp only [Exec.ok_bind, hstep]
    cases hok : step R L nested outerDepth s (n + 1) ev with
    | error e => rfl
    | ok out =>
      obtain ⟨t, m⟩ := out
      have hm := h.step_counted hok
      exact ih (by omega) (by rw [step_height hok]; omega)

end Fitting

end Fitting

/-- Levels of comments, with higher limits. -/
theorem fitting_fragment (hevents : L.events ≤ L'.events) (hdepth : L.depth ≤ L'.depth) (k : ℕ) :
    Fitting L L' (fragment R L k) (fragment R L' k) (R.countIn k) (R.depthIn k) := by
  induction k with
  | zero => exact ⟨hevents, hdepth, fun _ _ _ _ _ _ => rfl, fun _ _ _ _ _ _ hok => by cases hok⟩
  | succ k ih =>
    refine ⟨hevents, hdepth, fun value fields n o hcount hlevel => ?_,
      fun value fields n o out m hok => ?_⟩
    · -- the end of the text counts as an event
      rw [Reader.countIn] at hcount
      have hscan : scan R L' (fragment R L' k) o (R.events value) { fields } n =
          scan R L (fragment R L k) o (R.events value) { fields } n :=
        ih.scan_eq (by omega) hlevel
      rw [fragment, fragment, hscan]
      cases hok : scan R L (fragment R L k) o (R.events value) { fields } n with
      | error e => rfl
      | ok out =>
        have hm := ih.scan_counted hok
        simp only [Exec.ok_bind]
        rw [tick_eq_ok.2 ⟨by omega, rfl⟩, tick_eq_ok.2 ⟨by omega, rfl⟩]
    · obtain ⟨s, n₁, hscan, -, -, -, rfl⟩ := fragment_succ_eq_ok.1 hok
      have hm := ih.scan_counted hscan
      rw [Reader.countIn]
      omega

variable (R) in
/-- A document within the limits: higher ones make no difference. -/
structure Within (d : String) : Prop where
  size : d.utf8ByteSize ≤ maxInput
  walk : ∀ L : Limits, limits.events ≤ L.events → limits.depth ≤ L.depth →
    document R L d = document R limits d

/-- **A document whose events and levels are few enough is within the limits.** -/
theorem Within.of_count {d : String} (hsize : d.utf8ByteSize ≤ maxInput)
    (hcount : R.count d ≤ limits.events) (hdepth : R.depth d ≤ limits.depth) : Within R d := by
  refine ⟨hsize, fun L hevents hlevels => ?_⟩
  have hcount : 0 + R.count d ≤ limits.events := by rwa [Nat.zero_add]
  have hdepth : 0 + R.depth d ≤ limits.depth := by rwa [Nat.zero_add]
  rw [document, document, (fitting_fragment hevents hlevels _).same _ _ _ _ hcount hdepth]

theorem parseCompletionIfPresent_eq_ok {m : Markup} {input : String} {r : Option GpCompletion} :
    m.parseCompletionIfPresent input = .ok r ↔
      (input.isEmpty = false ∧ input.utf8ByteSize ≤ maxInput ∧
        ∀ c ∈ input.toList, xmlChar c = true) ∧
      casPrefix.isPrefixOf (input.toList.dropWhile isWhitespace) = false ∧
      ∃ values, m.fragment input = .ok values ∧
        values.completion malformed malformed malformed = .ok r := by
  have hchars : (!input.toList.all xmlChar) = false ↔ ∀ c ∈ input.toList, xmlChar c = true := by
    rw [Bool.not_eq_false', List.all_eq_true]
  simp only [Markup.parseCompletionIfPresent, Exec.bind_eq_ok, Exec.rejectIf_eq_ok,
    Bool.or_eq_false_iff, hchars, decide_eq_false_iff_not, not_lt, exists_const, and_assoc]

/-- A document that is accepted is within the limits. -/
theorem document_extends {d : String} {fields : Fields} (h : document R L d = .ok fields)
    (hevents : L.events ≤ L'.events) (hdepth : L.depth ≤ L'.depth) :
    document R L' d = .ok fields := by
  obtain ⟨⟨out, m⟩, hfragment, hpure⟩ := Exec.bind_eq_ok.1 h
  cases hpure
  obtain ⟨m', -, hfragment'⟩ :=
    fragment_extends (a := 0) le_rfl hdepth hevents _ _ _ _ _ _ hfragment 0 le_rfl
  exact Exec.bind_eq_ok.2 ⟨(fields, m'), hfragment', rfl⟩

theorem Within.of_isOk {d : String} (hsize : d.utf8ByteSize ≤ maxInput)
    (h : (document R limits d).isOk = true) : Within R d := by
  refine ⟨hsize, fun L hevents hdepth => ?_⟩
  cases hdocument : document R limits d with
  | ok fields => exact document_extends hdocument hevents hdepth
  | error e =>
    rw [hdocument] at h
    cases h

/-- **Inert content has no influence on a completion.**  In a document that is accepted no field
occurs twice, and another content of its inert elements leads to the same result, as long as it has
no processing instruction and the document stays within the limits. -/
theorem completion_inert {decode : String → Option String} {d : String}
    {r : Option GpCompletion}
    (h : (R.markup limits decode).parseCompletionIfPresent d = .ok r) :
    (occurrences R d).Nodup ∧ ∀ d', Replaced R (Event.Accepted R) d d' → Within R d' →
      (R.markup limits decode).parseCompletionIfPresent d' = .ok r := by
  obtain ⟨⟨hempty, hsize, hchars⟩, hcas, values, hdocument, hvalues⟩ :=
    parseCompletionIfPresent_eq_ok.1 h
  refine ⟨(document_readOnce hdocument).nodup, fun d' hd' hwithin => ?_⟩
  have hmem : '<' ∈ d'.toList := List.contains_iff_mem.1 hd'.contains.2
  have hempty' : d'.isEmpty = false := by
    rw [Bool.eq_false_iff]
    intro hnil
    rw [String.isEmpty_iff.1 hnil] at hmem
    cases hmem
  have hdocument' : document R limits d' = .ok values := by
    obtain ⟨a, hslack⟩ := hd'.exists_slack
    obtain ⟨⟨out, m⟩, hfragment, hpure⟩ := Exec.bind_eq_ok.1 hdocument
    cases hpure
    let higher : Limits := ⟨limits.events + a, limits.depth + a⟩
    let k := max (d.length + 1) (d'.length + 1)
    obtain ⟨m', -, hfragment'⟩ := hslack limits higher 0 (d.length + 1) k (le_max_left _ _) le_rfl
      le_rfl _ _ _ _ _ hfragment 0 (Nat.zero_le _)
    have hfuel : fragment R higher (d'.length + 1) d' = fragment R higher k d' :=
      fragment_fuel (Nat.lt_succ_self _) (Nat.lt_of_lt_of_le (Nat.lt_succ_self _) (le_max_right _ _))
    rw [← hwithin.walk higher (Nat.le_add_right _ _) (Nat.le_add_right _ _), document, hfuel]
    exact Exec.bind_eq_ok.2 ⟨(values, m'), hfragment', rfl⟩
  exact parseCompletionIfPresent_eq_ok.2 ⟨⟨hempty', hwithin.size, hd'.forall_xmlChar hchars⟩,
    hd'.casPrefix_congr ▸ hcas, values, hdocument', hvalues⟩

end Walk

/-! ### A page with a script -/

/-- What follows the script in the page. -/
def scriptTail : String :=
  "</script><saml-auth-status>1</saml-auth-status><saml-username>u</saml-username>" ++
    "<prelogin-cookie>c</prelogin-cookie>"

/-- A page with a completion and a script. -/
def scriptPage (content : String) : String :=
  "" ++ "<" ++ "script" ++ ">" ++ content ++ scriptTail

/-- The events of an element that holds a text. -/
def textElement (name value : String) : List Event :=
  [ .start ⟨name, "", some []⟩, .text value, .close name ]

/-- The events of such a page. -/
def scriptEvents (content : List Event) : List Event :=
  .start ⟨"script", "", some []⟩ :: (content ++ .close "script" ::
    (textElement "saml-auth-status" "1" ++ textElement "saml-username" "u" ++
      textElement "prelogin-cookie" "c"))

/-- The page with an empty script, with another one and with a processing instruction in it. -/
def scriptReader : Reader where
  events s :=
    if s = scriptPage "" then scriptEvents []
    else if s = scriptPage "f()" then scriptEvents [.text "f()"]
    else if s = scriptPage "<?f?>" then scriptEvents [.pi]
    else [.bad]
  charRef _ := some none
  comment_length s t h := by
    split_ifs at h <;> simp [scriptEvents, textElement] at h

/-- The completion of the page. -/
def scriptCompletion : GpCompletion := ⟨"u", "prelogin-cookie", "c"⟩

theorem scriptReader_empty : (scriptReader.markup limits some).parseCompletionIfPresent
    (scriptPage "") = .ok (some scriptCompletion) := by
  decide +kernel

/-- The content of the script is replaced. -/
theorem scriptReader_replaced {allowed : Event → Prop} {content : String} {inner : List Event}
    (hevents : scriptReader.events (scriptPage content) = scriptEvents inner)
    (hinner : Balanced inner) (hallowed : ∀ ev ∈ inner, allowed ev)
    (hchars : ∀ c ∈ content.toList, xmlChar c = true) :
    Replaced scriptReader allowed (scriptPage "") (scriptPage content) := by
  have hempty : scriptReader.events (scriptPage "") = scriptEvents [] := by decide +kernel
  have htag : inert "script" = true := by decide
  rw [scriptPage] at hempty
  rw [scriptPage] at hevents
  exact @Replaced.element scriptReader allowed "" "script" "" content scriptTail [] [] inner _
    ⟨"script", "", some []⟩ hempty hevents htag .nil hinner hallowed hchars

theorem completion_inert_script : (scriptReader.markup limits some).parseCompletionIfPresent
    (scriptPage "f()") = .ok (some scriptCompletion) := by
  have hevents : scriptReader.events (scriptPage "f()") = scriptEvents [.text "f()"] := by
    decide +kernel
  exact (completion_inert scriptReader_empty).2 _ (scriptReader_replaced hevents
    (.flat trivial .nil) (List.forall_mem_singleton.2 trivial) (List.all_eq_true.1 (by decide)))
    (.of_isOk (by decide +kernel) (by decide +kernel))

/-- A processing instruction in a script is not passed over. -/
theorem inert_instruction_fails : ¬ ∀ (R : Reader) (decode : String → Option String) (d d' : String)
    (r : Option GpCompletion), (R.markup limits decode).parseCompletionIfPresent d = .ok r →
      Replaced R (Event.WellFormed R) d d' → Within R d' →
        (R.markup limits decode).parseCompletionIfPresent d' = .ok r := by
  intro h
  have hevents : scriptReader.events (scriptPage "<?f?>") = scriptEvents [.pi] := by
    decide +kernel
  have hfails : (document scriptReader limits (scriptPage "<?f?>")).isOk = false := by decide +kernel
  have hreplaced : Replaced scriptReader (Event.WellFormed scriptReader) (scriptPage "")
      (scriptPage "<?f?>") :=
    scriptReader_replaced hevents (.flat trivial .nil) (List.forall_mem_singleton.2 (.inl rfl))
      (List.all_eq_true.1 (by decide))
  have hwithin : Within scriptReader (scriptPage "<?f?>") :=
    .of_count (by decide +kernel) (by decide +kernel) (by decide +kernel)
  obtain ⟨-, -, fields, hdocument, -⟩ := parseCompletionIfPresent_eq_ok.1
    (h _ some _ _ _ scriptReader_empty hreplaced hwithin)
  have hdocument : document scriptReader limits (scriptPage "<?f?>") = .ok fields := hdocument
  rw [hdocument] at hfails
  cases hfails

end Ocvpn.Browser
