import Mathlib

/-!
# Lists with slots

Lists whose elements each stand in a slot, which may hold several of them.  `assign` writes a slot as
a map is written; `substitute` replaces one element of it, as the first one that is found.

## Main results

* `perm_of_slot` : lists with the same slots have the same elements.
* `Substituted.perm_iff` : when replacing what is missing and removing what is in excess leads from
  one list to another.
-/

namespace Ocvpn.Slots

open List

variable {α β κ : Type*} [DecidableEq κ] (key : α → κ)

/-! ### Slots -/

/-- The elements of a slot, in their order. -/
def slot (k : κ) (l : List α) : List α := l.filter (key · = k)

/-- The first element of the slot of `r` becomes `r`, if there is one. -/
def substitute (r : α) : List α → Option (List α)
  | [] => none
  | a :: l => if key a = key r then some (r :: l) else (substitute r l).map (a :: ·)

/-- The slot of `r` holds `r` and nothing else. -/
def assign (r : α) (l : List α) : List α := l.filter (key · ≠ key r) ++ [r]

variable {key} {k : κ} {l l' : List α} {r a : α}

@[simp] theorem mem_slot : a ∈ slot key k l ↔ a ∈ l ∧ key a = k := by simp [slot]

theorem slot_perm (key : α → κ) (k : κ) (h : l ~ l') : slot key k l ~ slot key k l' := h.filter _

theorem slot_cons : slot key k (a :: l) =
    if key a = k then a :: slot key k l else slot key k l := by
  simp [slot, filter_cons]

theorem slot_filter (p : α → Bool) : slot key k (l.filter p) = (slot key k l).filter p := by
  rw [slot, slot, filter_filter, filter_filter]
  exact filter_congr fun a _ => Bool.and_comm _ _

theorem slot_eq_nil : slot key k l = [] ↔ k ∉ l.map key := by
  rw [slot, filter_eq_nil_iff]
  simp

/-- Lists with the same slots have the same elements. -/
theorem perm_of_slot [DecidableEq α] (key : α → κ) (h : ∀ k, slot key k l ~ slot key k l') : l ~ l' := by
  refine perm_iff_count.2 fun a => ?_
  have hcount : ∀ l : List α, count a l = count a (slot key (key a) l) := fun l =>
    (count_filter (by simp)).symm
  rw [hcount l, hcount l', (h (key a)).count_eq]

/-- A slot with at most one element is known by any of its elements. -/
theorem slot_eq_singleton (h : (slot key k l).length ≤ 1) (ha : a ∈ slot key k l) :
    slot key k l = [a] := by
  match hslot : slot key k l, h, ha with
  | [b], _, ha => rw [mem_singleton.1 ha]

/-- Without a slot of several elements no slot occurs twice. -/
theorem nodup_map_key (h : ∀ a ∈ l, (slot key (key a) l).length ≤ 1) : (l.map key).Nodup := by
  induction l with
  | nil => exact nodup_nil
  | cons a l ih =>
    refine nodup_cons.2 ⟨fun hmem => ?_, ih fun b hb => ?_⟩
    · have ha := h a mem_cons_self
      rw [slot_cons, if_pos rfl, length_cons] at ha
      exact slot_eq_nil.1 (length_eq_zero_iff.1 (by omega)) hmem
    · have hb := h b (mem_cons_of_mem _ hb)
      rw [slot_cons] at hb
      split_ifs at hb
      · exact Nat.le_of_lt hb
      · exact hb

/-- Elements that are alone in their slots have slots of their own. -/
theorem nodup_map_filter {p : α → Bool} (h : ∀ a ∈ l, p a → slot key (key a) l = [a]) :
    ((l.filter p).map key).Nodup := by
  refine nodup_map_key fun a ha => ?_
  obtain ⟨ha, hp⟩ := mem_filter.1 ha
  rw [slot_filter, h a ha hp]
  exact length_filter_le _ _

/-! ### Writing a slot -/

theorem slot_assign : slot key k (assign key r l) =
    if key r = k then [r] else slot key k l := by
  rw [assign, slot, filter_append, filter_filter]
  split_ifs with h
  · subst h
    simp
  · have hfilter : l.filter (fun a => decide (key a = k) && decide (key a ≠ key r)) =
        slot key k l := by
      refine filter_congr fun a _ => ?_
      by_cases ha : key a = k
      · simp [ha, Ne.symm h]
      · simp [ha]
    rw [hfilter]
    simp [h]

theorem slot_foldl_assign_of_notMem {rs : List α} (h : k ∉ rs.map key) :
    slot key k (rs.foldl (fun l r => assign key r l) l) = slot key k l := by
  induction rs generalizing l with
  | nil => rfl
  | cons r rs ih =>
    rw [map_cons, mem_cons, not_or] at h
    rw [foldl_cons, ih h.2, slot_assign, if_neg (Ne.symm h.1)]

theorem slot_foldl_assign {rs : List α} (h : k ∈ rs.map key) :
    ∃ r ∈ rs, slot key k (rs.foldl (fun l r => assign key r l) l) = [r] := by
  induction rs generalizing l with
  | nil => cases h
  | cons r rs ih =>
    by_cases hrest : k ∈ rs.map key
    · obtain ⟨r', hr', hslot⟩ := ih (l := assign key r l) hrest
      exact ⟨r', mem_cons_of_mem _ hr', hslot⟩
    · obtain rfl | h := mem_cons.1 h
      · refine ⟨r, mem_cons_self, ?_⟩
        rw [foldl_cons, slot_foldl_assign_of_notMem hrest, slot_assign, if_pos rfl]
      · exact absurd h hrest

/-! ### Replacing in a slot -/

theorem substitute_eq_none : substitute key r l = none ↔ slot key (key r) l = [] := by
  induction l with
  | nil => simp [substitute, slot]
  | cons a l ih =>
    rw [substitute, slot_cons]
    split_ifs with h
    · simp
    · rw [Option.map_eq_none_iff, ih]

theorem slot_substitute (h : substitute key r l = some l') : slot key k l' =
    if key r = k then r :: (slot key k l).tail else slot key k l := by
  induction l generalizing l' with
  | nil => cases h
  | cons a l ih =>
    rw [substitute] at h
    split_ifs at h with ha
    · cases h
      rw [slot_cons, slot_cons, ha]
      split_ifs <;> rfl
    · obtain ⟨l'', hl'', rfl⟩ := Option.map_eq_some_iff.1 h
      rw [slot_cons, slot_cons, ih hl'']
      by_cases hk : key r = k
      · have hak : key a ≠ k := fun h => ha (h.trans hk.symm)
        rw [if_pos hk, if_neg hak, if_neg hak, if_pos hk]
      · rw [if_neg hk, if_neg hk]

theorem mem_of_mem_substitute (h : substitute key r l = some l') (ha : a ∈ l') : a = r ∨ a ∈ l := by
  induction l generalizing l' with
  | nil => cases h
  | cons b l ih =>
    rw [substitute] at h
    split_ifs at h
    · cases h
      exact (mem_cons.1 ha).imp_right (mem_cons_of_mem _)
    · obtain ⟨l'', hl'', rfl⟩ := Option.map_eq_some_iff.1 h
      obtain rfl | ha := mem_cons.1 ha
      · exact .inr mem_cons_self
      · exact (ih hl'' ha).imp_right (mem_cons_of_mem _)

/-- Replacing in a list of things that carry their element. -/
theorem map_substitute (key : α → κ) (f : β → α) (b : β) (bs : List β) :
    (substitute (key ∘ f) b bs).map (List.map f) = substitute key (f b) (bs.map f) := by
  induction bs with
  | nil => rfl
  | cons c bs ih =>
    rw [map_cons, substitute, substitute, ← ih]
    by_cases h : key (f c) = key (f b)
    · simp [h]
    · simp [h, Function.comp_def]

/-- What replacing in the slots of some new elements does, which are pairwise different slots: a slot
that had several elements still has as many. -/
structure Substituted (key : α → κ) (ns l l' : List α) : Prop where
  same : ∀ k ∉ ns.map key, slot key k l' ~ slot key k l
  new : ∀ n ∈ ns, n ∈ l' ∧ (slot key (key n) l').length = max 1 (slot key (key n) l).length

namespace Substituted

variable {ns l₁ l₂ : List α} {n : α}

theorem nil : Substituted key [] l l := ⟨fun _ _ => .refl _, nofun⟩

/-- One element is replaced. -/
theorem of_substitute (h : substitute key n l = some l') : Substituted key [n] l l' := by
  constructor
  · intro k hk
    rw [slot_substitute h, if_neg (by simpa [eq_comm] using hk)]
  · intro m hm
    obtain rfl := mem_singleton.1 hm
    have hslot := slot_substitute (k := key m) h
    rw [if_pos rfl] at hslot
    have hmem : m ∈ slot key (key m) l' := by
      rw [hslot]
      exact mem_cons_self
    have hne : slot key (key m) l ≠ [] := fun hnil => by
      rw [substitute_eq_none.2 hnil] at h
      cases h
    have hpos := length_pos_iff.2 hne
    refine ⟨(mem_slot.1 hmem).1, ?_⟩
    rw [hslot, length_cons, length_tail]
    omega

/-- One element is added. -/
theorem of_perm (hslot : slot key (key n) l = []) (h : l' ~ n :: l) : Substituted key [n] l l' := by
  constructor
  · intro k hk
    have hne : key n ≠ k := by simpa [eq_comm] using hk
    have hperm := slot_perm key k h
    rwa [slot_cons, if_neg hne] at hperm
  · intro m hm
    obtain rfl := mem_singleton.1 hm
    have hperm := slot_perm key (key m) h
    rw [slot_cons, if_pos rfl, hslot] at hperm
    refine ⟨h.mem_iff.2 mem_cons_self, ?_⟩
    rw [hperm.length_eq, hslot]
    rfl

/-- A new element, and then the other ones. -/
theorem cons (h : Substituted key [n] l l₁) (hs : Substituted key ns l₁ l₂)
    (hn : key n ∉ ns.map key) : Substituted key (n :: ns) l l₂ := by
  constructor
  · intro k hk
    rw [map_cons, mem_cons, not_or] at hk
    exact (hs.same k hk.2).trans (h.same k (by simpa using hk.1))
  · intro m hm
    obtain rfl | hm := mem_cons.1 hm
    · obtain ⟨hmem, hlength⟩ := h.new m mem_cons_self
      have hsame := hs.same (key m) hn
      refine ⟨?_, hsame.length_eq.trans hlength⟩
      exact (mem_slot.1 (hsame.mem_iff.2 (mem_slot.2 ⟨hmem, rfl⟩))).1
    · have hne : key m ≠ key n := fun heq => hn (heq ▸ mem_map_of_mem hm)
      have hsame := h.same (key m) (by simpa using hne)
      obtain ⟨hmem, hlength⟩ := hs.new m hm
      exact ⟨hmem, by rw [hlength, hsame.length_eq]⟩

/-- No slot is emptied. -/
theorem occupied (h : Substituted key ns l l') (hk : k ∈ l.map key) : k ∈ l'.map key := by
  by_cases hkey : k ∈ ns.map key
  · obtain ⟨n, hn, rfl⟩ := mem_map.1 hkey
    exact mem_map_of_mem (h.new n hn).1
  · by_contra hnone
    have hperm := h.same k hkey
    rw [slot_eq_nil.2 hnone, nil_perm] at hperm
    exact slot_eq_nil.1 hperm hk

end Substituted

/-! ### Removing -/

theorem diff_self [DecidableEq α] : l.diff l = [] := by
  induction l with
  | nil => rfl
  | cons a l ih => rw [diff_cons, erase_cons_head, ih]

theorem slot_diff [DecidableEq α] {ds : List α} :
    slot key k (l.diff ds) = (slot key k l).diff (slot key k ds) := by
  induction ds generalizing l with
  | nil => simp [slot]
  | cons d ds ih =>
    have herase : slot key k (l.erase d) = (slot key k l).erase d := erase_filter.symm
    rw [diff_cons, ih, herase, slot_cons]
    split_ifs with h
    · rw [diff_cons]
    · rw [erase_of_not_mem fun hmem => h (mem_slot.1 hmem).2]

/-- The elements whose slots are not in use any more. -/
def excess (key : α → κ) (target l : List α) : List α := l.filter (key · ∉ target.map key)

theorem slot_excess {target : List α} : slot key k (excess key target l) =
    if k ∈ target.map key then [] else slot key k l := by
  rw [excess, slot_filter]
  split_ifs with h
  · rw [filter_eq_nil_iff]
    rintro a ha
    rw [(mem_slot.1 ha).2]
    simpa using h
  · rw [filter_eq_self]
    rintro a ha
    rw [(mem_slot.1 ha).2]
    simpa using h

/-! ### Both -/

section Both

variable [DecidableEq α] {target current l₁ : List α}

/-- Replace what is missing, then remove the slots that are not in use any more: this leads to the
target exactly if no slot with a new element held several ones, and the other slots are right. -/
theorem Substituted.perm_iff (h : Substituted key (target.filter (· ∉ current)) l l₁)
    (hl : l ~ current)
    (hsingle : ∀ n ∈ target, n ∉ current → slot key (key n) target = [n]) :
    l₁.diff (excess key target current) ~ target ↔
      (∀ n ∈ target, n ∉ current → (slot key (key n) l).length ≤ 1) ∧
        ∀ k ∈ target.map key, (∀ n ∈ target, n ∉ current → key n ≠ k) →
          slot key k l ~ slot key k target := by
  have hnew : ∀ k, k ∉ (target.filter (· ∉ current)).map key ↔
      ∀ n ∈ target, n ∉ current → key n ≠ k := by
    intro k
    simp only [mem_map, mem_filter, decide_eq_true_eq, not_exists, not_and, and_imp, ne_eq]
  have hslot : ∀ k ∈ target.map key, slot key k (l₁.diff (excess key target current)) =
      slot key k l₁ := by
    intro k hk
    rw [slot_diff, slot_excess, if_pos hk, diff_nil]
  have hone : ∀ n ∈ target, n ∉ current →
      (slot key (key n) l₁ ~ [n] ↔ (slot key (key n) l).length ≤ 1) := by
    intro n hn hcurrent
    obtain ⟨hmem, hlength⟩ := h.new n (mem_filter.2 ⟨hn, by simpa using hcurrent⟩)
    constructor
    · intro hperm
      rw [hperm.length_eq, length_singleton] at hlength
      omega
    · intro hle
      rw [slot_eq_singleton (by omega) (mem_slot.2 ⟨hmem, rfl⟩)]
  constructor
  · intro hperm
    constructor
    · intro n hn hcurrent
      have hslots := slot_perm key (key n) hperm
      rw [hslot _ (mem_map_of_mem hn), hsingle n hn hcurrent] at hslots
      exact (hone n hn hcurrent).1 hslots
    · intro k hk hnone
      have hslots := slot_perm key k hperm
      rw [hslot k hk] at hslots
      exact (h.same k ((hnew k).2 hnone)).symm.trans hslots
  · rintro ⟨hle, hrest⟩
    refine perm_of_slot key fun k => ?_
    by_cases hk : k ∈ target.map key
    · rw [hslot k hk]
      by_cases hnone : ∀ n ∈ target, n ∉ current → key n ≠ k
      · exact (h.same k ((hnew k).2 hnone)).trans (hrest k hk hnone)
      · push Not at hnone
        obtain ⟨n, hn, hcurrent, rfl⟩ := hnone
        rw [hsingle n hn hcurrent]
        exact (hone n hn hcurrent).2 (hle n hn hcurrent)
    · -- the slot is emptied
      have hsame : slot key k l₁ ~ slot key k current := by
        refine (h.same k ((hnew k).2 fun n hn _ hkey => ?_)).trans (slot_perm key k hl)
        exact hk (hkey ▸ mem_map_of_mem hn)
      have hnil : slot key k target = [] := slot_eq_nil.2 hk
      rw [slot_diff, slot_excess, if_neg hk, hnil]
      have hempty := hsame.diff_right (slot key k current)
      rwa [diff_self] at hempty

end Both

end Ocvpn.Slots
