import Ocvpn.Text.Gap
import Ocvpn.Model.Network

/-!
# The text field of the terminal interface

`Field` of `apps/cli/src/tui.rs`: a line of text with a cursor, a list of choices it can cycle
through, and a limit on its bytes.  The cursor is a byte offset into the text, and the slices and
replacements the editing keys make panic when it is not at a character boundary.

`Field.apply_put` says that every key, paste and cycle does to the field what the operation of its
name does to a text with a gap (`Field.edit`).  A run therefore never panics (`Field.run_put`), and
the facts about fields are read off the gap.
-/

namespace Ocvpn

namespace Tui

/-- The keys a field receives; the last constructor stands for all other keys. -/
inductive KeyCode where
  | left | right | home | toEnd | backspace | delete
  | char (c : Char)
  | other
  deriving DecidableEq, Repr

/-- A field of a dialog, or a filter.  The text is kept as its characters. -/
structure Field where
  /-- The name of the answer. -/
  key : String
  /-- What is shown before the text. -/
  label : String
  /-- The text. -/
  value : List Char
  /-- The values the field cycles through, with their labels. -/
  choices : List (List Char × String)
  /-- The text is shown as bullets. -/
  secret : Bool
  /-- The byte offset of the cursor. -/
  cursor : ℕ
  /-- The most bytes an insertion may lead to. -/
  limit : ℕ
  deriving DecidableEq, Repr

namespace Field

/-- A field with the cursor at the end. -/
def new (key label : String) (value : List Char) : Field :=
  { key, label, value, choices := [], secret := false, cursor := utf8Len value, limit := 65536 }

/-- The characters of a pasted or typed text that are kept. -/
def clean (text : List Char) : List Char := text.filter fun c => !isControl c

/-- Insert the text at the cursor, unless the result is over the limit. -/
def insert (f : Field) (text : List Char) : Run Field :=
  if utf8Len f.value + utf8Len (clean text) ≤ f.limit then do
    let value ← insertStr f.value f.cursor (clean text)
    return { f with value, cursor := f.cursor + utf8Len (clean text) }
  else return f

/-- `chars().next().unwrap().len_utf8()` of a slice. -/
def firstLen (s : List Char) : Run ℕ :=
  match s with
  | c :: _ => .ok c.utf8Size
  | [] => .error .panic

/-- One key. -/
def onKey (f : Field) : KeyCode → Run Field
  -- the cursor is a byte index: each arm cuts at a boundary of a character or panics
  | .left =>
    if f.cursor > 0 then do
      let before ← sliceTo f.value f.cursor
      return { f with cursor := (charIndices 0 before).getLast?.elim 0 Prod.fst }
    else return f
  | .right =>
    if f.cursor < utf8Len f.value then do
      let after ← sliceFrom f.value f.cursor
      return { f with cursor := f.cursor + (← firstLen after) }
    else return f
  | .home => return { f with cursor := 0 }
  | .toEnd => return { f with cursor := utf8Len f.value }
  | .backspace =>
    if f.cursor > 0 then do
      let before ← sliceTo f.value f.cursor
      match (charIndices 0 before).getLast? with
      | some (previous, _) =>
        let value ← replaceRange f.value previous f.cursor []
        return { f with value, cursor := previous }
      | none => .error .panic
    else return f
  | .delete =>
    if f.cursor < utf8Len f.value then do
      let after ← sliceFrom f.value f.cursor
      let last := f.cursor + (← firstLen after)
      return { f with value := ← replaceRange f.value f.cursor last [] }
    else return f
  | .char c => f.insert [c]
  | .other => return f

/-- The choice the field shows, or the first one. -/
def index (f : Field) : ℕ := (f.choices.findIdx? fun c => c.1 == f.value).getD 0

/-- Go to the next or the previous choice. -/
def cycle (f : Field) (back : Bool) : Run Field :=
  if f.choices.isEmpty then return f
  else
    let n := f.choices.length
    let next := if back then (f.index + n - 1) % n else (f.index + 1) % n
    match f.choices[next]? with
    | some (value, _) => return { f with value, cursor := utf8Len value }
    | none => .error .panic

end Field

/-- What reaches a field: a key, a bracketed paste, or a step through the choices. -/
inductive Input where
  | key (code : KeyCode)
  | paste (text : List Char)
  | cycle (back : Bool)
  deriving DecidableEq, Repr

namespace Field

/-- One input. -/
def apply (f : Field) : Input → Run Field
  | .key code => f.onKey code
  | .paste text => f.insert text
  | .cycle back => f.cycle back

/-- A sequence of inputs. -/
def run (f : Field) : List Input → Run Field
  | [] => .ok f
  | i :: is => do
    let f ← f.apply i
    f.run is

/-! ### The gap of a field -/

/-- The field with the text and the cursor of the gap. -/
def put (f : Field) (g : Gap Char) : Field :=
  { f with value := g.text, cursor := utf8Len g.before }

/-- Insert what is kept of a text, unless the result is over the limit. -/
def enter (f : Field) (g : Gap Char) (text : List Char) : Gap Char :=
  if utf8Len g.text + utf8Len (clean text) ≤ f.limit then g.insert (clean text) else g

/-- What an input does to the gap. -/
def edit (f : Field) (g : Gap Char) : Input → Gap Char
  | .key .left => g.left
  | .key .right => g.right
  | .key .home => g.toStart
  | .key .toEnd => g.toEnd
  | .key .backspace => g.erase
  | .key .delete => g.delete
  | .key (.char c) => f.enter g [c]
  | .key .other => g
  | .paste text => f.enter g text
  | .cycle back =>
    match f.choices[((f.put g).index + if back then f.choices.length - 1 else 1) %
        f.choices.length]? with
    | some (value, _) => { before := value, after := [] }
    | none => g

@[simp] theorem put_put (f : Field) (g g' : Gap Char) : (f.put g).put g' = f.put g' := rfl

@[simp] theorem edit_put (f : Field) (g g' : Gap Char) (i : Input) :
    (f.put g).edit g' i = f.edit g' i := rfl

@[simp] theorem put_value (f : Field) (g : Gap Char) : (f.put g).value = g.text := rfl

@[simp] theorem put_cursor (f : Field) (g : Gap Char) : (f.put g).cursor = utf8Len g.before := rfl

@[simp] theorem put_limit (f : Field) (g : Gap Char) : (f.put g).limit = f.limit := rfl

@[simp] theorem put_choices (f : Field) (g : Gap Char) : (f.put g).choices = f.choices := rfl

theorem insert_put (f : Field) (g : Gap Char) (text : List Char) :
    (f.put g).insert text = .ok (f.put (f.enter g text)) := by
  by_cases h : utf8Len g.text + utf8Len (clean text) ≤ f.limit
  · have h' : utf8Len (f.put g).value + utf8Len (clean text) ≤ (f.put g).limit := h
    rw [insert, enter, if_pos h', if_pos h, put_value, put_cursor, Gap.insertStr_text]
    simp [put, Gap.insert]
  · have h' : ¬utf8Len (f.put g).value + utf8Len (clean text) ≤ (f.put g).limit := h
    rw [insert, enter, if_neg h', if_neg h]
    rfl

theorem onKey_left (f : Field) (g : Gap Char) : (f.put g).onKey .left = .ok (f.put g.left) := by
  rcases g.before_cases with h | ⟨l, c, h, hpos⟩
  · simp [onKey, put, h, Gap.left]
  · have hleft : g.left = { before := l, after := c :: g.after } := by simp [Gap.left, h]
    rw [onKey, if_pos (show (f.put g).cursor > 0 from hpos), put_value, put_cursor,
      Gap.sliceTo_text, Exec.ok_bind, h, getLast?_charIndices, hleft]
    simp [put, Gap.text, h]

theorem onKey_right (f : Field) (g : Gap Char) :
    (f.put g).onKey .right = .ok (f.put g.right) := by
  rcases g.after_cases with ⟨h, hlt⟩ | ⟨c, r, h, hlt⟩
  · simp [onKey, put, hlt, h, Gap.right]
  · have hright : g.right = { before := g.before ++ [c], after := r } := by simp [Gap.right, h]
    rw [onKey, if_pos (show (f.put g).cursor < utf8Len (f.put g).value from hlt), put_value,
      put_cursor, Gap.sliceFrom_text, Exec.ok_bind, h, hright]
    simp [firstLen, put, Gap.text, h]

theorem onKey_backspace (f : Field) (g : Gap Char) :
    (f.put g).onKey .backspace = .ok (f.put g.erase) := by
  rcases g.before_cases with h | ⟨l, c, h, hpos⟩
  · simp [onKey, h, Gap.erase, put, Gap.text]
  · have hreplace : replaceRange g.text (utf8Len l) (utf8Len (l ++ [c])) [] =
        (.ok (l ++ g.after) : Run _) := by
      simpa [Gap.text, h] using replaceRange_append (ε := Error) l [c] g.after []
    rw [onKey, if_pos (show (f.put g).cursor > 0 from hpos), put_value, put_cursor,
      Gap.sliceTo_text, Exec.ok_bind, h, getLast?_charIndices]
    simp only [hreplace, Exec.ok_bind]
    simp [Gap.erase, put, Gap.text, h]

theorem onKey_delete (f : Field) (g : Gap Char) :
    (f.put g).onKey .delete = .ok (f.put g.delete) := by
  rcases g.after_cases with ⟨h, hlt⟩ | ⟨c, r, h, hlt⟩
  · have hdelete : g.delete = g := by rw [Gap.delete, h, List.tail_nil, ← h]
    simp [onKey, hlt, hdelete]
  · have hreplace : replaceRange g.text (utf8Len g.before) (utf8Len g.before + c.utf8Size) [] =
        (.ok (g.before ++ r) : Run _) := by
      simpa [Gap.text, h] using replaceRange_append (ε := Error) g.before [c] r []
    rw [onKey, if_pos (show (f.put g).cursor < utf8Len (f.put g).value from hlt), put_value,
      put_cursor, Gap.sliceFrom_text, Exec.ok_bind, h]
    simp only [firstLen, Exec.ok_bind, hreplace]
    simp [Gap.delete, put, Gap.text, h]

theorem onKey_put (f : Field) (g : Gap Char) (code : KeyCode) :
    (f.put g).onKey code = .ok (f.put (f.edit g (.key code))) := by
  cases code with
  | left => exact onKey_left f g
  | right => exact onKey_right f g
  | home => simp [onKey, edit, put, Gap.toStart, Gap.text]
  | toEnd => simp [onKey, edit, put, Gap.toEnd, Gap.text]
  | backspace => exact onKey_backspace f g
  | delete => exact onKey_delete f g
  | char c => exact insert_put f g [c]
  | other => rfl

theorem cycle_put (f : Field) (g : Gap Char) (back : Bool) :
    (f.put g).cycle back = .ok (f.put (f.edit g (.cycle back))) := by
  unfold cycle
  cases hc : f.choices with
  | nil => simp [edit, hc]
  | cons choice choices =>
    have hpos : 0 < f.choices.length := by simp [hc]
    generalize hat : ((f.put g).index + if back then f.choices.length - 1 else 1) %
      f.choices.length = at'
    have hnext : (if back then ((f.put g).index + f.choices.length - 1) % f.choices.length
        else ((f.put g).index + 1) % f.choices.length) = at' := by
      subst hat
      cases back with
      | true => simp only [if_true]; congr 1; omega
      | false => rfl
    have hlt : at' < f.choices.length := hat ▸ Nat.mod_lt _ hpos
    have hget := List.getElem?_eq_getElem hlt
    simp only [put_choices, edit, hat, hnext, hget]
    simp [put, Gap.text, hc]

/-- Every input does to the field what it does to the gap. -/
theorem apply_put (f : Field) (g : Gap Char) (i : Input) :
    (f.put g).apply i = .ok (f.put (f.edit g i)) := by
  cases i with
  | key code => exact onKey_put f g code
  | paste text => exact insert_put f g text
  | cycle back => exact cycle_put f g back

/-- So does every run. -/
theorem run_put (f : Field) (g : Gap Char) (is : List Input) :
    (f.put g).run is = .ok (f.put (is.foldl f.edit g)) := by
  induction is generalizing g with
  | nil => rfl
  | cons i is ih =>
    rw [run, apply_put, Exec.ok_bind, ih, List.foldl_cons]

/-! ### Editing -/

theorem clean_not_control {text : List Char} {c : Char} (h : c ∈ clean text) :
    isControl c = false := by
  simpa using (List.mem_filter.1 h).2

/-- An input brings in no control character but those of the choices. -/
theorem mem_edit {f : Field} {g : Gap Char} {i : Input} {c : Char} (h : c ∈ (f.edit g i).text)
    (hc : isControl c = true) : c ∈ g.text ∨ ∃ choice ∈ f.choices, c ∈ choice.1 := by
  have henter : ∀ text, c ∈ (f.enter g text).text → c ∈ g.text := by
    intro text h
    unfold enter at h
    split at h
    · rcases Gap.mem_insert.1 h with hclean | htext
      · exact absurd hc (by simp [clean_not_control hclean])
      · exact htext
    · exact h
  cases i with
  | key code =>
    refine .inl ?_
    cases code with
    | left => simpa only [edit, Gap.text_left] using h
    | right => simpa only [edit, Gap.text_right] using h
    | home => simpa only [edit, Gap.text_toStart] using h
    | toEnd => simpa only [edit, Gap.text_toEnd] using h
    | backspace => exact Gap.mem_erase h
    | delete => exact Gap.mem_delete h
    | char c' => exact henter [c'] h
    | other => exact h
  | paste text => exact .inl (henter text h)
  | cycle back =>
    simp only [edit] at h
    split at h
    next value label hget =>
      refine .inr ⟨_, List.mem_of_getElem? hget, ?_⟩
      simpa [Gap.text] using h
    next => exact .inl h

theorem mem_foldl_edit {f : Field} {is : List Input} {g : Gap Char} {c : Char}
    (h : c ∈ (is.foldl f.edit g).text) (hc : isControl c = true) :
    c ∈ g.text ∨ ∃ choice ∈ f.choices, c ∈ choice.1 := by
  induction is generalizing g with
  | nil => exact .inl h
  | cons i is ih =>
    rcases ih h with hg | hchoice
    · exact mem_edit hg hc
    · exact .inr hchoice

/-- What an insertion leaves: the same field, or a text within the limit; and it only adds
characters that are no controls, in one place. -/
theorem insert_cases (f : Field) (g : Gap Char) (text : List Char) :
    ∃ f', (f.put g).insert text = .ok f' ∧ (f' = f.put g ∨ utf8Len f'.value ≤ f.limit) ∧
      ∃ l m r, g.text = l ++ r ∧ f'.value = l ++ m ++ r ∧ ∀ c ∈ m, isControl c = false := by
  refine ⟨_, insert_put f g text, ?_⟩
  unfold enter
  split
  next hle =>
    refine ⟨.inr ?_, g.before, clean text, g.after, rfl, rfl, fun c => clean_not_control⟩
    simp only [put_value, Gap.insert, Gap.text, utf8Len_append] at hle ⊢
    omega
  next => exact ⟨.inl rfl, g.before, [], g.after, rfl, by simp [Gap.text], by simp⟩

/-- A typed character that changed the text is removed again by Backspace, cursor included. -/
theorem backspace_char {f f' : Field} {g : Gap Char} {c : Char}
    (h : (f.put g).onKey (.char c) = .ok f') (hne : f'.value ≠ g.text) :
    f'.onKey .backspace = .ok (f.put g) := by
  rw [onKey_put] at h
  obtain rfl := Except.ok.inj h
  rw [onKey_backspace]
  simp only [edit, enter, put_value] at hne ⊢
  split
  next hle =>
    rw [if_pos hle] at hne
    have hclean : clean [c] = [c] := by
      by_cases hc : isControl c = true
      · exact absurd (by simp [clean, hc, Gap.insert, Gap.text]) hne
      · simp [clean, hc]
    rw [hclean, Gap.erase_insert]
  next hle => exact absurd (by rw [if_neg hle]) hne

/-- **Editing a field is safe.**  From any initial text, choices and limit, no sequence of keys,
pastes and cycles panics.  In the field it ends in, the cursor is a character boundary of the text;
an insertion stays within the limit and inserts no control character; Backspace undoes a
character that was inserted; and a control character comes from the initial text or a choice. -/
theorem editing_safe (key label : String) (value : List Char) (choices : List (List Char × String))
    (secret : Bool) (limit : ℕ) (is : List Input) :
    ∃ f, run { new key label value with choices, secret, limit } is = .ok f ∧
      IsCharBoundary f.value f.cursor ∧ f.cursor ≤ utf8Len f.value ∧
      (∀ text, ∃ f', f.insert text = .ok f' ∧ (f' = f ∨ utf8Len f'.value ≤ limit) ∧
        ∃ l m r, f.value = l ++ r ∧ f'.value = l ++ m ++ r ∧ ∀ c ∈ m, isControl c = false) ∧
      (∀ c f', f.onKey (.char c) = .ok f' → f'.value ≠ f.value → f'.onKey .backspace = .ok f) ∧
      ∀ c ∈ f.value, isControl c = true → c ∈ value ∨ ∃ choice ∈ choices, c ∈ choice.1 := by
  set f₀ : Field := { new key label value with choices, secret, limit } with hf₀
  set g₀ : Gap Char := { before := value, after := [] } with hg₀
  have hput : f₀ = f₀.put g₀ := by simp [hf₀, hg₀, put, new, Gap.text]
  have hrun := run_put f₀ g₀ is
  rw [← hput] at hrun
  refine ⟨_, hrun, Gap.boundary _, (Gap.boundary _).le, fun text => ?_, fun c f' h hne => ?_, ?_⟩
  · exact insert_cases f₀ _ text
  · exact backspace_char h hne
  · intro c hmem hc
    simpa [hg₀, Gap.text] using mem_foldl_edit hmem hc

end Field

end Tui

end Ocvpn
