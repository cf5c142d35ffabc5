import Ocvpn.Auth.Choices
import Ocvpn.Auth.Machine
import Ocvpn.Model.Split

/-!
# The saved password

All of `Worker::form` of `crates/engine/src/auth.rs`: the fields it answers by itself, the question
to the user, and the answers it writes.  The state it keeps from one form to the next decides
whether the saved password is among them.

Every answer carries its source, which the code does not have and no test of it reads.

## Main results

* `Login.form_spec` : what one form does with the password.
* `password_once` : the saved password is written once, and only where it belongs.
-/

namespace Ocvpn.Auth.Forms

/-! ### Forms -/

/-- A native form.  `authgroup_opt` is a pointer to a selection, and null or one of the options. -/
structure NativeForm where
  authId : TextPointer
  banner : TextPointer
  message : TextPointer
  error : TextPointer
  options : List NativeOption
  group : Option ℕ
  group_kind : ∀ i opt, group = some i → options[i]? = some opt → opt.kind = 3

/-- One call of the form callback, with all it learns: whether the authentication was cancelled,
whether the prompt is delivered, what the wait for the answer returns, and which values the library
takes. -/
structure Callback where
  cancelled : Bool
  promptId : Uuid
  form : Option NativeForm
  delivered : Bool
  response : Run Response
  accepts : ℕ → String → Bool

/-- Where an answer comes from. -/
inductive Source where
  | password | profile | user
  deriving DecidableEq, Repr

structure Answer where
  text : String
  source : Source
  deriving DecidableEq

/-- What a callback does outside the worker. -/
inductive Note where
  | prompted (prompt : AuthPrompt)
  /-- A value is given to the library. -/
  | wrote (field : AuthField) (answer : Answer) (value : String)
  /-- `authgroup_selection` is set. -/
  | grouped (selection : ℕ)
  deriving DecidableEq

/-- What the worker keeps from one form to the next. -/
structure Login where
  passwordUsed : Bool := false
  /-- `secrets.password`. -/
  password : Option String
  groupSelected : Option String := none
  emptyForms : ℕ := 0
  failure : Option Error := none

/-- The end of a callback. -/
structure Ending where
  login : Login
  notes : List Note
  result : Run ℕ

/-- The saved password is not to be used any more. -/
def Login.spend (l : Login) : Login := { l with passwordUsed := true, password := none }

/-- `prompt`, but for its fields. -/
def NativeForm.header (form : NativeForm) (promptId attemptId : Uuid) : Run AuthPrompt := do
  let authId ← form.authId.read
  let banner ← form.banner.readOptional
  let message ← form.message.readOptional
  let error ← form.error.readOptional
  pure { promptId, attemptId, authId := authId.text, banner := banner.map (·.text)
         message := message.map (·.text), error := error.map (·.text), fields := [] }

/-- The library answers an option itself. -/
def NativeForm.nativeGenerated (form : NativeForm) (token : Bool) : Bool :=
  form.options.any fun opt => opt.flags % 2 = 0 &&
    (opt.kind == 6 || opt.kind == 7 || (opt.kind == 5 && token))

/-- `lower.contains`. -/
def contains (pattern : String) (s : List Char) : Bool := (position pattern.toList s).isSome

section

variable {Url : Type} (profile : Profile Url)

/-! ### Automatic answers -/

/-- The answer the worker has for a field other than a password. -/
def automaticAnswer (form : NativeForm) (groupSelected : Option String) (b : Bound) :
    Run (Option String) :=
  let name := b.field.name
  let lower := name.toList.map Char.toLower
  let flags := (form.options[b.option]?.map (·.flags)).getD 0
  if b.field.kind = .text && ("user".toList.isPrefixOf lower || "uname".toList.isPrefixOf lower) &&
      !contains "secondary" lower && flags / 0x8000 % 2 = 0 then
    pure profile.username
  else if b.field.kind = .text && profile.protocol == "array" && name == "method" then
    pure profile.authGroup
  else if b.field.kind = .select then
    -- the group is answered only when it was chosen before
    if form.group = some b.option then
      match groupSelected with
      | none => pure none
      | some saved =>
        if b.field.choices.any (·.id == saved) then pure (some saved) else Exec.fail stale
    else if contains "gateway" lower || (profile.protocol == "gp" && name == "_portal") then
      match profile.gateway with
      | none => pure none
      | some saved => do
        let id ← savedChoice b.field b.native saved
        pure (some id)
    else pure none
  else pure none

/-- The loop over the fields that collects `automatic`. -/
def automaticAnswers (form : NativeForm) (groupSelected : Option String) :
    List Bound → Run (List (String × Answer))
  | [] => pure []
  | b :: bs => do
    let answer ← automaticAnswer profile form groupSelected b
    let answers ← automaticAnswers form groupSelected bs
    pure ((answer.map fun text => (b.field.name, ⟨text, .profile⟩)).toList ++ answers)

/-- `initial_password`: the names of a field that takes the password of the login. -/
def initialPassword (authId name : String) : Bool :=
  eqIgnoreAsciiCase name.toList "password".toList || eqIgnoreAsciiCase name.toList "passwd".toList ||
    (profile.protocol == "fortinet" && authId == "_login" && name == "credential") ||
    (profile.protocol == "array" && authId == "form" && name == "pwd")

/-- The saved password, if it answers a field of the form. -/
def savedPassword (l : Login) (authId : String) (fields : List AuthField) : List (String × Answer) :=
  match fields.filter (·.kind = .password) with
  | [field] =>
    if !l.passwordUsed && authId != "_challenge" && initialPassword profile authId field.name then
      (l.password.map fun text => (field.name, ⟨text, .password⟩)).toList
    else []
  | _ => []

end

/-! ### Writing -/

section

variable (accepts : ℕ → String → Bool) (group : Option ℕ) (answers : List (String × Answer))

/-- One field in the last loop of `form`; it goes on if there is no result. -/
def Login.writeAnswer (l : Login) (b : Bound) : Login × List Note × Option (Run ℕ) :=
  match answers.lookup b.field.name with
  | none => (l, [], some (Exec.fail (.invalid "Missing authentication answer")))
  | some answer =>
    match b.field.selection answer.text with
    | .error e => (l, [], some (.error e))
    | .ok selection =>
      match b.value answer.text selection with
      | .error e => (l, [], some (.error e))
      | .ok value =>
        let wrote := Note.wrote b.field answer value
        if !accepts b.option value then
          (l, [wrote], some (Exec.fail
            (.new .runtimeFailure "OpenConnect could not apply authentication answer")))
        else
          let spent := if b.field.kind = .password then l.spend else l
          if group = some b.option then
            match selection with
            | none => (l, [wrote], some (Exec.fail stale))
            | some k =>
              if l.groupSelected = some answer.text then (spent, [wrote, .grouped k], none)
              else ({ l with groupSelected := some answer.text }, [wrote, .grouped k], some (pure 2))
          else (spent, [wrote], none)

/-- The last loop of `form`. -/
def Login.writeAnswers : Login → List Bound → Ending
  | l, [] => ⟨l, [], pure 0⟩
  | l, b :: bs =>
    match l.writeAnswer accepts group answers b with
    | (l, notes, some result) => ⟨l, notes, result⟩
    | (l, notes, none) =>
      let rest := Login.writeAnswers l bs
      { rest with notes := notes ++ rest.notes }

/-! ### The two loops -/

/-- The answers without their sources. -/
def texts : List (String × String) := answers.map fun (name, answer) => (name, answer.text)

/-- The value that a note gives to the library. -/
def Note.value : Note → Option String
  | .wrote _ _ value => some value
  | _ => none

/-- The selection that a note sets. -/
def Note.selection : Note → Option ℕ
  | .grouped selection => some selection
  | _ => none

/-- The end of a callback is that of the loop of `Written`, which has no sources, no password and no
value that the library refuses. -/
structure Ending.Tells (e : Ending) (w w' : Written) (result : Run ℕ) : Prop where
  result : e.result = result
  groupSelected : w'.groupSelected = e.login.groupSelected
  selection : w'.selection = (e.notes.filterMap Note.selection).getLast?.or w.selection
  writes : ∃ refused, w.writes.map Prod.snd ++ e.notes.filterMap Note.value =
    w'.writes.map Prod.snd ++ refused ∧ (e.result.isOk = true → refused = [])

variable {accepts group answers}

theorem lookup_texts (name : String) :
    (texts answers).lookup name = (answers.lookup name).map Answer.text := by
  induction answers with
  | nil => rfl
  | cons a answers ih =>
    obtain ⟨key, answer⟩ := a
    rw [texts, List.map_cons, List.lookup_cons, List.lookup_cons]
    cases name == key with
    | true => rfl
    | false => exact ih

/-- A loop that goes on after a field. -/
theorem Ending.Tells.cons {e : Ending} {w w₁ w' : Written} {notes : List Note} {result : Run ℕ}
    (h : e.Tells w₁ w' result) (hselection : w₁.selection =
      (notes.filterMap Note.selection).getLast?.or w.selection)
    (hwrites : w₁.writes.map Prod.snd = w.writes.map Prod.snd ++ notes.filterMap Note.value) :
    Ending.Tells { e with notes := notes ++ e.notes } w w' result where
  result := h.result
  groupSelected := h.groupSelected
  selection := by
    rw [h.selection, hselection, List.filterMap_append, List.getLast?_append, Option.or_assoc]
  writes := by
    obtain ⟨refused, hrefused, hok⟩ := h.writes
    refine ⟨refused, ?_, hok⟩
    rw [List.filterMap_append, ← List.append_assoc, ← hwrites, hrefused]

/-- **The loop with sources and the loop without them do the same.** -/
theorem Login.writeAnswers_tells (l : Login) (bs : List Bound) {w : Written}
    (hw : w.groupSelected = l.groupSelected) :
    let out := Auth.writeAnswers accepts group (texts answers) bs w
    (l.writeAnswers accepts group answers bs).Tells w out.1 out.2 := by
  induction bs generalizing l w with
  | nil => exact ⟨rfl, hw, rfl, [], rfl, fun _ => rfl⟩
  | cons b bs ih =>
    rw [Login.writeAnswers, Auth.writeAnswers, Login.writeAnswer, Auth.writeAnswer, lookup_texts]
    cases answers.lookup b.field.name with
    | none => exact ⟨rfl, hw, rfl, [], rfl, fun _ => rfl⟩
    | some answer =>
      dsimp only [Option.map_some]
      cases b.field.selection answer.text with
      | error e => exact ⟨rfl, hw, rfl, [], rfl, fun _ => rfl⟩
      | ok selection =>
        dsimp only
        cases b.value answer.text selection with
        | error e => exact ⟨rfl, hw, rfl, [], rfl, fun _ => rfl⟩
        | ok value =>
          dsimp only
          have hspend : ∀ l' : Login, (if b.field.kind = .password then l'.spend else l').groupSelected =
              l'.groupSelected := by
            intro l'
            split_ifs <;> rfl
          cases accepts b.option value with
          | false =>
            -- the library is given the value, and refuses it
            exact ⟨rfl, hw, rfl, [value], rfl, fun h => by cases h⟩
          | true =>
            simp only [Bool.not_true, Bool.false_eq_true, if_false]
            by_cases hgroup : group = some b.option
            swap
            · -- the loop goes on; a password that was written is spent
              simp only [if_neg hgroup]
              refine Ending.Tells.cons (ih _ (hw.trans (hspend l).symm)) rfl ?_
              simp [Note.value]
            simp only [if_pos hgroup]
            cases selection with
            | none => exact ⟨rfl, hw, rfl, [], by simp [Note.value], fun _ => rfl⟩
            | some k =>
              simp only [← hw]
              by_cases hsame : w.groupSelected = some answer.text
              · simp only [if_pos hsame]
                refine Ending.Tells.cons (ih _ (hw.trans (hspend l).symm)) rfl ?_
                simp [Note.value]
              · simp only [if_neg hsame]
                exact ⟨rfl, rfl, rfl, [], by simp [Note.value], fun _ => rfl⟩

end

section

variable {Url : Type} (profile : Profile Url)

/-- The end of `form`, with the answers of the worker and of the user. -/
def Login.submit (l : Login) (i : Callback) (form : NativeForm) (prompt : AuthPrompt)
    (shown : List Bound) (reply : AuthReply) (answers : Option (List (String × Answer))) : Ending :=
  match prompt.validateReply { reply with answers := answers.map texts } with
  | .error e => ⟨l, [], .error e⟩
  | .ok () =>
    match answers with
    | none => ⟨l, [], Exec.fail cancelled⟩
    | some answers => l.writeAnswers i.accepts form.group answers shown

/-- **So do the ends of `form`**, here and in `submit`. -/
theorem Login.submit_tells (l : Login) (i : Callback) (form : NativeForm) (prompt : AuthPrompt)
    (shown : List Bound) (reply : AuthReply) (answers : Option (List (String × Answer))) {w : Written}
    (hw : w.groupSelected = l.groupSelected) :
    let out := Auth.submit i.accepts form.group prompt shown
      { reply with answers := answers.map texts } w
    (l.submit i form { prompt with fields := shown.map Bound.field } shown reply answers).Tells w
      out.1 out.2 := by
  unfold Login.submit Auth.submit
  cases { prompt with fields := shown.map Bound.field }.validateReply
      { reply with answers := answers.map texts } with
  | error e => exact ⟨rfl, hw, rfl, [], rfl, fun _ => rfl⟩
  | ok _ =>
    cases answers with
    | none => exact ⟨rfl, hw, rfl, [], rfl, fun _ => rfl⟩
    | some answers => exact l.writeAnswers_tells shown hw

/-- The wait for the user's answer. -/
def Callback.reply (i : Callback) : Run AuthReply := do
  match ← i.response with
  | .form reply => pure reply
  | _ => Exec.fail stale

/-- The answers of a form whose group is settled. -/
def Login.answer (l : Login) (i : Callback) (form : NativeForm) (header : AuthPrompt)
    (shown : List Bound) : Ending :=
  let prompt := { header with fields := shown.map Bound.field }
  match automaticAnswers profile form l.groupSelected shown with
  | .error e => ⟨l, [], .error e⟩
  | .ok automatic =>
    let automatic := automatic ++ savedPassword profile l prompt.authId prompt.fields
    if automatic.length = prompt.fields.length then
      let reply : AuthReply := { promptId := prompt.promptId, attemptId := prompt.attemptId
                                 answers := none }
      if prompt.fields.isEmpty && !form.nativeGenerated (profile.tokenMode != .none) then
        let l := { l with emptyForms := l.emptyForms + 1 }
        if l.emptyForms > 2 then
          ⟨l, [], Exec.fail (.new .authenticationRequired
            "Server repeatedly returned an empty authentication form")⟩
        else l.submit i form prompt shown reply (some automatic)
      else Login.submit { l with emptyForms := 0 } i form prompt shown reply (some automatic)
    else
      let l := { l with emptyForms := 0 }
      let asked := { prompt with fields := prompt.fields.filter fun f =>
        (automatic.lookup f.name).isNone }
      if !i.delivered then ⟨l, [], Exec.fail cancelled⟩
      else
        match i.reply with
        | .error e => ⟨l, [.prompted asked], .error e⟩
        | .ok reply =>
          match asked.validateReply reply with
          | .error e => ⟨l, [.prompted asked], .error e⟩
          | .ok () =>
            -- the answers of the worker replace those of the user
            let answers := reply.answers.map fun answers =>
              automatic ++ answers.map fun (name, text) => (name, ⟨text, .user⟩)
            let ending := l.submit i form prompt shown reply answers
            { ending with notes := .prompted asked :: ending.notes }

/-- The group that the profile names is selected before anything else. -/
def Login.preselect (l : Login) (i : Callback) (b : Bound) (desired : String) : Ending :=
  if b.field.kind ≠ .select then ⟨l, [], .error .panic⟩
  else
    match savedChoice b.field b.native desired with
    | .error e => ⟨l, [], .error e⟩
    | .ok id =>
      match b.field.choices.findIdx? (·.id == id) with
      | none => ⟨l, [], Exec.fail stale⟩
      | some selection =>
        match b.value id (some selection) with
        | .error e => ⟨l, [], .error e⟩
        | .ok value =>
          let wrote := Note.wrote b.field ⟨id, .profile⟩ value
          if !i.accepts b.option value then
            ⟨l, [wrote], Exec.fail
              (.new .runtimeFailure "OpenConnect could not select authentication group")⟩
          else ⟨{ l with groupSelected := some id }, [wrote, .grouped selection], pure 2⟩

/-- What `form` does once the header is read: the group comes before the other fields. -/
def Login.choose (l : Login) (i : Callback) (form : NativeForm) (header : AuthPrompt) : Ending :=
  match readOptions (profile.tokenMode != .none) 0 [] form.options with
  | .error e => ⟨l, [], .error e⟩
  | .ok bound =>
    match bound.find? (fun b => form.group = some b.option), l.groupSelected with
    | some b, none =>
      match profile.authGroup.or profile.gateway with
      | some desired => l.preselect i b desired
      | none => l.answer profile i form header [b]
    | _, _ => l.answer profile i form header bound

/-- `Worker::form`. -/
def Login.form (attemptId : Uuid) (l : Login) (i : Callback) : Ending :=
  if l.failure.isSome then
    ⟨l, [], Exec.fail
      (.new .authenticationRejected "A previous authentication callback failed")⟩
  else if i.cancelled then ⟨l, [], Exec.fail cancelled⟩
  else
    match i.form with
    | none => ⟨l, [], Exec.fail
        (.new .protocolViolation "Missing native authentication form")⟩
    | some form =>
      match form.header i.promptId attemptId with
      | .error e => ⟨l, [], .error e⟩
      | .ok header =>
        -- an error ends the use of the saved password
        (if header.error.isSome then l.spend else l).choose profile i form header

/-! ### Sessions -/

/-- What happens to the worker in an authentication session. -/
inductive Call where
  | form (i : Callback)
  /-- Another callback fails. -/
  | failed (error : Error)

/-- `callback`. -/
def Login.call (attemptId : Uuid) (l : Login) : Call → Login × List Note
  | .form i =>
    let ending := l.form profile attemptId i
    match ending.result with
    | .ok _ => (ending.login, ending.notes)
    | .error fault =>
      ({ ending.login with failure := ending.login.failure.or (some (callbackError fault)) },
        ending.notes)
  | .failed error => ({ l with failure := l.failure.or (some error) }, [])

/-- What the calls of a session do, one after another. -/
def Login.session (attemptId : Uuid) (l : Login) : List Call → List (Call × List Note)
  | [] => []
  | c :: cs =>
    let (next, notes) := l.call profile attemptId c
    (c, notes) :: next.session attemptId cs

end

/-! ### What is read -/

/-- The option is shown as a password. -/
def showsPassword (opt : NativeOption) : Bool := opt.flags % 2 = 0 && opt.kind == 2

/-- The number of password fields that a form shows. -/
def NativeForm.passwords (form : NativeForm) : ℕ := form.options.countP showsPassword

/-- A password field. -/
def isPassword (b : Bound) : Bool := b.field.kind = .password

theorem fieldKind_password {n : ℕ} {kind : AuthFieldKind} (h : fieldKind n = .ok kind) :
    (decide (kind = .password)) = (n == 2) := by
  rw [fieldKind.eq_def] at h
  split at h
  all_goals cases h
  all_goals rfl

/-- What the loop over the options makes of them. -/
structure Fields (i : ℕ) (bound : List Bound) (opts : List NativeOption) (out : List Bound) :
    Prop where
  names : (bound.map (·.field.name)).Nodup → (out.map (·.field.name)).Nodup
  passwords : out.countP isPassword = bound.countP isPassword + opts.countP showsPassword
  kinds : ∀ b ∈ out, b ∈ bound ∨
    ∃ j opt, opts[j]? = some opt ∧ b.option = i + j ∧ fieldKind opt.kind = .ok b.field.kind

namespace Fields

variable {i : ℕ} {bound out : List Bound} {opt : NativeOption} {opts : List NativeOption}

/-- An option that is not a field. -/
theorem skip (h : Fields (i + 1) bound opts out) (hopt : showsPassword opt = false) :
    Fields i bound (opt :: opts) out where
  names := h.names
  passwords := by rw [List.countP_cons_of_neg (by simp [hopt]), h.passwords]
  kinds b hb := (h.kinds b hb).imp_right fun ⟨j, opt', hj, hb, hkind⟩ =>
    ⟨j + 1, opt', hj, by omega, hkind⟩

/-- An option that becomes a field of a new name. -/
theorem field {b : Bound} (h : Fields (i + 1) (bound ++ [b]) opts out)
    (hname : ∀ b' ∈ bound, b'.field.name ≠ b.field.name) (hoption : b.option = i)
    (hkind : fieldKind opt.kind = .ok b.field.kind) (hshown : opt.flags % 2 = 0) :
    Fields i bound (opt :: opts) out where
  names hnames := h.names (by
    rw [List.map_append, List.nodup_append]
    refine ⟨hnames, List.nodup_singleton _, fun n hn n' hn' => ?_⟩
    obtain ⟨b', hb', rfl⟩ := List.mem_map.1 hn
    rw [List.mem_singleton.1 hn']
    exact hname b' hb')
  passwords := by
    have hpassword : isPassword b = showsPassword opt := by
      rw [isPassword, fieldKind_password hkind, showsPassword, hshown]
      rfl
    rw [h.passwords, List.countP_append, List.countP_cons, List.countP_cons, List.countP_nil,
      hpassword]
    omega
  kinds b' hb' := by
    obtain hb' | ⟨j, opt', hj, hb', hkind'⟩ := h.kinds b' hb'
    · obtain hb' | hb' := List.mem_append.1 hb'
      · exact .inl hb'
      · rw [List.mem_singleton.1 hb']
        exact .inr ⟨0, opt, rfl, hoption, hkind⟩
    · exact .inr ⟨j + 1, opt', hj, by omega, hkind'⟩

end Fields

theorem readOptions_fields {token : Bool} {i : ℕ} {bound out : List Bound}
    {opts : List NativeOption} (h : readOptions token i bound opts = .ok out) :
    Fields i bound opts out := by
  induction opts generalizing i bound with
  | nil =>
    obtain rfl := Except.ok.inj h
    exact ⟨id, rfl, fun b hb => .inl hb⟩
  | cons opt opts ih =>
    rw [readOptions, Exec.bind_eq_ok] at h
    obtain ⟨-, -, h⟩ := h
    split at h
    next hskip =>
      refine (ih h).skip ?_
      simp only [Bool.or_eq_true, decide_eq_true_eq] at hskip
      rw [showsPassword, Bool.and_eq_false_iff, decide_eq_false_iff_not, beq_eq_false_iff_ne]
      omega
    next hfield =>
      rw [Exec.bind_eq_ok] at h
      obtain ⟨kind, hkind, h⟩ := h
      split at h
      next htoken =>
        refine (ih h).skip ?_
        obtain ⟨hkind', -⟩ := Bool.and_eq_true_iff.1 htoken
        rw [showsPassword, ← fieldKind_password hkind, of_decide_eq_true hkind']
        exact Bool.and_false _
      next =>
        simp only [Exec.bind_eq_ok, Exec.rejectIf_eq_ok] at h
        obtain ⟨name, -, -, hnew, ⟨choices, native⟩, -, label, -, h⟩ := h
        refine (ih h).field (fun b' hb' => ?_) rfl hkind ?_
        · simpa using List.any_eq_false.1 hnew b' hb'
        · simp only [Bool.or_eq_true, decide_eq_true_eq] at hfield
          omega

/-! ### What is written -/

/-- The saved password is given to the library. -/
def Note.saved : Note → Bool
  | .wrote _ answer _ => answer.source == .password
  | _ => false

/-- A password field is answered. -/
def Note.onPassword : Note → Bool
  | .wrote field _ _ => field.kind == .password
  | _ => false

/-- The saved password does not follow the answer of a password field. -/
def Note.Before (n n' : Note) : Prop := n.onPassword = true → n'.saved = false

/-- What a part of `form` does, which may fail. -/
structure Careful (l l' : Login) (notes : List Note) (failed : Prop) : Prop where
  order : notes.Pairwise Note.Before
  spends : ∀ n ∈ notes, n.onPassword = true → l'.passwordUsed = true ∨ failed
  used : l.passwordUsed = true → l'.passwordUsed = true
  password : l'.password = l.password ∨ l'.password = none

/-- Nothing is written. -/
theorem Careful.silent {l l' : Login} {failed : Prop} (hused : l'.passwordUsed = l.passwordUsed)
    (hpassword : l'.password = l.password) : Careful l l' [] failed where
  order := .nil
  spends := nofun
  used h := hused.trans h
  password := .inl hpassword

/-- One field is written. -/
theorem Careful.wrote {l l' : Login} {failed : Prop} {f : AuthField} {answer : Answer}
    {value : String} {rest : List Note} (hrest : ∀ n ∈ rest, ∃ k, n = .grouped k)
    (hspends : f.kind = .password → l'.passwordUsed = true ∨ failed)
    (hl : l' = l ∨ l' = l.spend ∨ ∃ id, l' = { l with groupSelected := id }) :
    Careful l l' (.wrote f answer value :: rest) failed where
  order := by
    have hsaved (n : Note) (hn : n ∈ rest) : n.saved = false := by
      obtain ⟨k, rfl⟩ := hrest n hn
      rfl
    exact List.pairwise_cons.2 ⟨fun n hn _ => hsaved n hn,
      List.pairwise_of_forall_mem_list fun _ _ n hn _ => hsaved n hn⟩
  spends n hn hpassword := by
    obtain rfl | hn := List.mem_cons.1 hn
    · exact hspends (of_decide_eq_true hpassword)
    · obtain ⟨k, rfl⟩ := hrest n hn
      cases hpassword
  used h := by
    obtain rfl | rfl | ⟨id, rfl⟩ := hl
    · exact h
    · rfl
    · exact h
  password := by
    obtain rfl | rfl | ⟨id, rfl⟩ := hl
    · exact .inl rfl
    · exact .inr rfl
    · exact .inl rfl

section

variable {accepts : ℕ → String → Bool} {group : Option ℕ} {answers : List (String × Answer)}
  {l : Login} {b : Bound} {bs : List Bound} {n : Note}

/-- What is written for some fields. -/
def Written (answers : List (String × Answer)) (bs : List Bound) (n : Note) : Prop :=
  (∃ k, n = .grouped k) ∨
    ∃ b ∈ bs, ∃ answer value, answers.lookup b.field.name = some answer ∧
      n = .wrote b.field answer value

theorem selection_kind {f : AuthField} {answer : String} {k : ℕ}
    (h : f.selection answer = .ok (some k)) : f.kind = .select := by
  rw [AuthField.selection] at h
  split at h
  next hkind => exact hkind
  next => cases h

/-- What becomes of one field: nothing is written, or its answer is, and then the loop fails, ends at
a new group or goes on. -/
theorem writeAnswer_cases (accepts : ℕ → String → Bool) (group : Option ℕ)
    (answers : List (String × Answer)) (l : Login) (b : Bound) :
    (∃ fault, l.writeAnswer accepts group answers b = (l, [], some (.error fault))) ∨
      ∃ answer value, answers.lookup b.field.name = some answer ∧
        ((∃ fault, l.writeAnswer accepts group answers b =
            (l, [.wrote b.field answer value], some (.error fault))) ∨
          (b.field.kind = .select ∧ ∃ k id, l.writeAnswer accepts group answers b =
            ({ l with groupSelected := some id }, [.wrote b.field answer value, .grouped k],
              some (pure 2))) ∨
          ∃ rest, (∀ n ∈ rest, ∃ k, n = .grouped k) ∧
            l.writeAnswer accepts group answers b =
              (if b.field.kind = .password then l.spend else l,
                .wrote b.field answer value :: rest, none)) := by
  rw [Login.writeAnswer]
  split
  next => exact .inl ⟨_, rfl⟩
  next answer hanswer =>
    split
    next => exact .inl ⟨_, rfl⟩
    next selection hselection =>
      split
      next => exact .inl ⟨_, rfl⟩
      next value _ =>
        refine .inr ⟨answer, value, hanswer, ?_⟩
        dsimp only
        by_cases haccepts : accepts b.option value = true
        · rw [if_neg (by simp [haccepts])]
          by_cases hgroup : group = some b.option
          · rw [if_pos hgroup]
            cases selection with
            | none => exact .inl ⟨_, rfl⟩
            | some k =>
              by_cases hsame : l.groupSelected = some answer.text
              · exact .inr (.inr ⟨[.grouped k], by simp, if_pos hsame⟩)
              · exact .inr (.inl ⟨selection_kind hselection, k, _, if_neg hsame⟩)
          · exact .inr (.inr ⟨[], nofun, if_neg hgroup⟩)
        · exact .inl ⟨_, if_pos (by simpa using haccepts)⟩

theorem writeAnswer_written (h : n ∈ (l.writeAnswer accepts group answers b).2.1) :
    Written answers [b] n := by
  have hgrouped (rest : List Note) (hrest : ∀ n ∈ rest, ∃ k, n = .grouped k) {answer : Answer}
      {value : String} (hanswer : answers.lookup b.field.name = some answer)
      (h : n ∈ .wrote b.field answer value :: rest) : Written answers [b] n := by
    obtain rfl | h := List.mem_cons.1 h
    · exact .inr ⟨b, List.mem_singleton_self b, answer, value, hanswer, rfl⟩
    · exact .inl (hrest n h)
  obtain ⟨fault, heq⟩ | ⟨answer, value, hanswer, ⟨fault, heq⟩ | ⟨-, k, id, heq⟩ | ⟨rest, hrest, heq⟩⟩ :=
    writeAnswer_cases accepts group answers l b
  · rw [heq] at h
    cases h
  · rw [heq] at h
    exact hgrouped [] nofun hanswer h
  · rw [heq] at h
    exact hgrouped [.grouped k] (by simp) hanswer h
  · rw [heq] at h
    exact hgrouped rest hrest hanswer h

/-- One field, as far as the password is concerned. -/
theorem writeAnswer_careful (accepts : ℕ → String → Bool) (group : Option ℕ)
    (answers : List (String × Answer)) (l : Login) (b : Bound) :
    Careful l (l.writeAnswer accepts group answers b).1
      (l.writeAnswer accepts group answers b).2.1
      (∃ fault, (l.writeAnswer accepts group answers b).2.2 = some (.error fault)) := by
  obtain ⟨fault, heq⟩ | ⟨answer, value, -, ⟨fault, heq⟩ | ⟨hkind, k, id, heq⟩ | ⟨rest, hrest, heq⟩⟩ :=
    writeAnswer_cases accepts group answers l b
  · rw [heq]
    exact .silent rfl rfl
  · rw [heq]
    exact .wrote nofun (fun _ => .inr ⟨fault, rfl⟩) (.inl rfl)
  · rw [heq]
    refine .wrote (by simp) (fun hpassword => ?_) (.inr (.inr ⟨_, rfl⟩))
    exact absurd (hkind.symm.trans hpassword) (by decide)
  · rw [heq]
    refine .wrote hrest (fun hpassword => .inl ?_) ?_
    · rw [if_pos hpassword]
      rfl
    · split <;> simp

/-- The saved password is an answer of one password field at most. -/
structure Single (answers : List (String × Answer)) (bs : List Bound) : Prop where
  kind : ∀ b ∈ bs, ∀ answer, answers.lookup b.field.name = some answer →
    answer.source = .password → b.field.kind = .password ∧ bs.countP isPassword ≤ 1

theorem Single.tail (h : Single answers (b :: bs)) : Single answers bs where
  kind b' hb' answer hanswer hsource := by
    obtain ⟨hkind, hcount⟩ := h.kind b' (List.mem_cons_of_mem _ hb') answer hanswer hsource
    exact ⟨hkind, (List.Sublist.countP_le (List.sublist_cons_self b bs)).trans hcount⟩

/-- What is written on a password field is written for one. -/
theorem Written.kind (h : Written answers [b] n) (hpassword : n.onPassword = true) :
    b.field.kind = .password := by
  obtain ⟨k, rfl⟩ | ⟨b', hb', answer, value, -, rfl⟩ := h
  · cases hpassword
  · rw [List.mem_singleton.1 hb'] at hpassword
    exact of_decide_eq_true hpassword

/-- The field of the saved password. -/
theorem Single.saved (h : Single answers bs) (hn : Written answers bs n) (hsaved : n.saved = true) :
    ∃ b ∈ bs, ∃ answer value, answers.lookup b.field.name = some answer ∧
      answer.source = .password ∧ n = .wrote b.field answer value ∧ b.field.kind = .password ∧
      bs.countP isPassword ≤ 1 := by
  obtain ⟨k, rfl⟩ | ⟨b, hb, answer, value, hanswer, rfl⟩ := hn
  · cases hsaved
  · have hsource : answer.source = .password := of_decide_eq_true hsaved
    obtain ⟨hkind, hcount⟩ := h.kind b hb answer hanswer hsource
    exact ⟨b, hb, answer, value, hanswer, hsource, rfl, hkind, hcount⟩

theorem writeAnswers_written (h : n ∈ (l.writeAnswers accepts group answers bs).notes) :
    Written answers bs n := by
  induction bs generalizing l with
  | nil => cases h
  | cons b bs ih =>
    have hhead {n : Note} (h : Written answers [b] n) : Written answers (b :: bs) n :=
      h.imp_right fun ⟨b', hb', hrest⟩ => ⟨b', by simp [List.mem_singleton.1 hb'], hrest⟩
    rw [Login.writeAnswers] at h
    split at h
    next l' notes result heq =>
      exact hhead (writeAnswer_written (by rw [heq]; exact h))
    next l' notes heq =>
      obtain h | h := List.mem_append.1 h
      · exact hhead (writeAnswer_written (by rw [heq]; exact h))
      · exact (ih h).imp_right fun ⟨b', hb', hrest⟩ => ⟨b', List.mem_cons_of_mem _ hb', hrest⟩

theorem writeAnswers_careful (h : Single answers bs) :
    Careful l (l.writeAnswers accepts group answers bs).login
      (l.writeAnswers accepts group answers bs).notes
      (∃ fault, (l.writeAnswers accepts group answers bs).result = .error fault) := by
  induction bs generalizing l with
  | nil => exact .silent rfl rfl
  | cons b bs ih =>
    have hb := writeAnswer_careful accepts group answers l b
    rw [Login.writeAnswers]
    split
    next l' notes result heq =>
      rw [heq] at hb
      exact ⟨hb.order, fun n hn hpassword => (hb.spends n hn hpassword).imp_right
        fun ⟨fault, hfault⟩ => ⟨fault, Option.some.inj hfault⟩, hb.used, hb.password⟩
    next l' notes heq =>
      rw [heq] at hb
      have hrest := ih (l := l') h.tail
      refine ⟨List.pairwise_append.2 ⟨hb.order, hrest.order, fun n hn n' hn' hpassword => ?_⟩,
        fun n hn hpassword => ?_, fun hused => hrest.used (hb.used hused), ?_⟩
      · have hn : Written answers [b] n := writeAnswer_written (by rw [heq]; exact hn)
        by_contra hsaved
        obtain ⟨b', hb', answer, -, hanswer, hsource, -⟩ := h.tail.saved (writeAnswers_written hn')
          (by simpa using hsaved)
        -- A second password field.
        obtain ⟨hkind, hcount⟩ := h.kind b' (List.mem_cons_of_mem _ hb') answer hanswer hsource
        have hfirst : isPassword b = true := decide_eq_true (hn.kind hpassword)
        have hsecond : 0 < bs.countP isPassword :=
          List.countP_pos_iff.2 ⟨b', hb', decide_eq_true hkind⟩
        rw [List.countP_cons_of_pos hfirst] at hcount
        omega
      · obtain hn | hn := List.mem_append.1 hn
        · obtain hused | ⟨fault, hfault⟩ := hb.spends n hn hpassword
          · exact .inl (hrest.used hused)
          · cases hfault
        · exact hrest.spends n hn hpassword
      · obtain hnone | hnone := hrest.password
        · rw [hnone]
          exact hb.password
        · exact .inr hnone

end

/-! ### The automatic answers -/

section

variable {Url : Type} {profile : Profile Url} {form : NativeForm} {l : Login} {authId : String}

theorem automaticAnswers_source {groupSelected : Option String} {shown : List Bound}
    {answers : List (String × Answer)}
    (h : automaticAnswers profile form groupSelected shown = .ok answers) :
    ∀ x ∈ answers, x.2.source = .profile := by
  induction shown generalizing answers with
  | nil =>
    obtain rfl := Except.ok.inj h
    nofun
  | cons b shown ih =>
    simp only [automaticAnswers, Exec.bind_eq_ok] at h
    obtain ⟨answer, -, rest, hrest, h⟩ := h
    obtain rfl := Except.ok.inj h
    intro x hx
    obtain hx | hx := List.mem_append.1 hx
    · cases answer with
      | none => cases hx
      | some text => rw [List.mem_singleton.1 hx]
    · exact ih hrest x hx

/-- The saved password may answer the field. -/
structure Suits (profile : Profile Url) (l : Login) (authId : String) (fields : List AuthField)
    (f : AuthField) (text : String) : Prop where
  unused : l.passwordUsed = false
  password : l.password = some text
  authId_ne : authId ≠ "_challenge"
  name : initialPassword profile authId f.name = true
  only : fields.filter (·.kind = .password) = [f]

theorem savedPassword_mem {fields : List AuthField} {x : String × Answer}
    (h : x ∈ savedPassword profile l authId fields) :
    ∃ f text, Suits profile l authId fields f text ∧ x = (f.name, ⟨text, .password⟩) := by
  rw [savedPassword] at h
  split at h
  next f honly =>
    split at h
    next hsuits =>
      simp only [Bool.and_eq_true, Bool.not_eq_true', bne_iff_ne] at hsuits
      rw [Option.mem_toList, Option.map_eq_some_iff] at h
      obtain ⟨text, hpassword, rfl⟩ := h
      exact ⟨f, text, ⟨hsuits.1.1, hpassword, hsuits.1.2, hsuits.2, honly⟩, rfl⟩
    next => cases h
  next => cases h

/-- The saved password is among the answers only as `savedPassword` has it. -/
def Tagged (profile : Profile Url) (l : Login) (authId : String) (shown : List Bound)
    (answers : List (String × Answer)) : Prop :=
  ∀ x ∈ answers, x.2.source = .password →
    x ∈ savedPassword profile l authId (shown.map Bound.field)

variable {shown : List Bound} {answers : List (String × Answer)}

theorem Tagged.suits (h : Tagged profile l authId shown answers)
    (hnames : (shown.map (·.field.name)).Nodup) {b : Bound} (hb : b ∈ shown) {answer : Answer}
    (hanswer : answers.lookup b.field.name = some answer) (hsource : answer.source = .password) :
    Suits profile l authId (shown.map Bound.field) b.field answer.text := by
  obtain ⟨before, after, rfl, -⟩ := List.lookup_eq_some_iff.1 hanswer
  obtain ⟨f, text, hsuits, heq⟩ := savedPassword_mem (h (b.field.name, answer) (by simp) hsource)
  obtain ⟨hname, rfl⟩ := Prod.mk.inj heq
  have hf : f ∈ (shown.map Bound.field).filter (·.kind = .password) := by
    rw [hsuits.only]
    exact List.mem_singleton_self f
  obtain ⟨b', hb', rfl⟩ := List.mem_map.1 (List.mem_filter.1 hf).1
  obtain rfl : b = b' := List.inj_on_of_nodup_map hnames hb hb' hname
  exact hsuits

theorem Suits.kind {f : AuthField} {text : String}
    (h : Suits profile l authId (shown.map Bound.field) f text) :
    f.kind = .password ∧ shown.countP isPassword = 1 := by
  have hf : f ∈ (shown.map Bound.field).filter (·.kind = .password) := by
    rw [h.only]
    exact List.mem_singleton_self f
  refine ⟨of_decide_eq_true (List.mem_filter.1 hf).2, ?_⟩
  have hcount : (shown.map Bound.field).countP (·.kind = .password) = 1 := by
    rw [List.countP_eq_length_filter, h.only]
    rfl
  rwa [List.countP_map] at hcount

/-- What a part of `form` does with the fields it shows. -/
structure Uses (profile : Profile Url) (l : Login) (authId : String) (shown : List Bound)
    (e : Ending) : Prop where
  careful : Careful l e.login e.notes (∃ fault, e.result = .error fault)
  saved : ∀ n ∈ e.notes, n.saved = true → ∃ f answer value, n = .wrote f answer value ∧
    Suits profile l authId (shown.map Bound.field) f answer.text

/-- It fails before it writes. -/
theorem Uses.failed {l' : Login} {result : Run ℕ} (hused : l'.passwordUsed = l.passwordUsed)
    (hpassword : l'.password = l.password) : Uses profile l authId shown ⟨l', [], result⟩ :=
  ⟨.silent hused hpassword, fun _ hn => nomatch hn⟩

/-- A question to the user is no answer. -/
theorem Uses.prompted {e : Ending} (h : Uses profile l authId shown e) (asked : AuthPrompt) :
    Uses profile l authId shown { e with notes := .prompted asked :: e.notes } where
  careful := {
    h.careful with
    order := List.pairwise_cons.2 ⟨fun _ _ hnot => absurd hnot Bool.false_ne_true, h.careful.order⟩
    spends := by
      intro n hn hpassword
      obtain rfl | hn := List.mem_cons.1 hn
      · cases hpassword
      · exact h.careful.spends n hn hpassword }
  saved n hn hsaved := by
    obtain rfl | hn := List.mem_cons.1 hn
    · cases hsaved
    · exact h.saved n hn hsaved

theorem submit_uses (hnames : (shown.map (·.field.name)).Nodup)
    {answers : Option (List (String × Answer))}
    (h : ∀ a, answers = some a → Tagged profile l authId shown a) (i : Callback)
    (prompt : AuthPrompt) (reply : AuthReply) :
    Uses profile l authId shown (l.submit i form prompt shown reply answers) := by
  unfold Login.submit
  split
  next => exact .failed rfl rfl
  next =>
    cases answers with
    | none => exact .failed rfl rfl
    | some answers =>
      have htagged := h answers rfl
      have hsingle : Single answers shown := ⟨fun b hb answer hanswer hsource =>
        (htagged.suits hnames hb hanswer hsource).kind.imp_right Nat.le_of_eq⟩
      refine ⟨writeAnswers_careful hsingle, fun n hn hsaved => ?_⟩
      obtain ⟨b, hb, answer, value, hanswer, hsource, rfl, -⟩ :=
        hsingle.saved (writeAnswers_written hn) hsaved
      exact ⟨_, answer, value, rfl, htagged.suits hnames hb hanswer hsource⟩

/-- What the answers to the shown fields do with the password. -/
theorem answer_uses (hnames : (shown.map (·.field.name)).Nodup) (i : Callback)
    (header : AuthPrompt) :
    Uses profile l header.authId shown (l.answer profile i form header shown) := by
  rw [Login.answer]
  dsimp only
  split
  next => exact .failed rfl rfl
  next automatic hautomatic =>
    have htagged : Tagged profile l header.authId shown
        (automatic ++ savedPassword profile l header.authId (shown.map Bound.field)) := by
      intro x hx hsource
      obtain hx | hx := List.mem_append.1 hx
      · rw [automaticAnswers_source hautomatic x hx] at hsource
        cases hsource
      · exact hx
    -- The count of empty forms has nothing to do with the password.
    have hnothing (n : ℕ) (result : Run ℕ) :
        Uses profile l header.authId shown ⟨{ l with emptyForms := n }, [], result⟩ :=
      .failed rfl rfl
    have hsubmit (n : ℕ) (prompt : AuthPrompt) (reply : AuthReply)
        (answers : Option (List (String × Answer)))
        (h : ∀ a, answers = some a → Tagged profile l header.authId shown a) :
        Uses profile l header.authId shown
          (Login.submit { l with emptyForms := n } i form prompt shown reply answers) := by
      have huses := @submit_uses Url profile form { l with emptyForms := n } header.authId shown
        hnames answers h i prompt reply
      refine ⟨⟨huses.careful.order, huses.careful.spends, huses.careful.used,
        huses.careful.password⟩, fun n hn hsaved => ?_⟩
      obtain ⟨f, answer, value, heq, hsuits⟩ := huses.saved n hn hsaved
      exact ⟨f, answer, value, heq, ⟨hsuits.unused, hsuits.password, hsuits.authId_ne, hsuits.name,
        hsuits.only⟩⟩
    have hown (a : List (String × Answer)) (ha : some (automatic ++
        savedPassword profile l header.authId (shown.map Bound.field)) = some a) :
        Tagged profile l header.authId shown a := by
      rwa [← Option.some.inj ha]
    split
    next =>
      split
      next =>
        split
        next => exact .failed rfl rfl
        next => exact hsubmit _ _ _ _ hown
      next => exact hsubmit _ _ _ _ hown
    next =>
      split
      next => exact .failed rfl rfl
      next =>
        split
        next => exact (hnothing 0 _).prompted _
        next reply _ =>
          split
          next => exact (hnothing 0 _).prompted _
          next =>
            refine (hsubmit _ _ _ _ fun a ha => ?_).prompted _
            obtain ⟨user, -, rfl⟩ := Option.map_eq_some_iff.1 ha
            intro x hx hsource
            obtain hx | hx := List.mem_append.1 hx
            · exact htagged x hx hsource
            · obtain ⟨y, -, rfl⟩ := List.mem_map.1 hx
              cases hsource

end

/-! ### One call -/

section

variable {Url : Type} {profile : Profile Url} {attemptId : Uuid} {l : Login} {i : Callback}

/-- The saved password is not written any more. -/
def Login.Spent (l : Login) : Prop := l.failure.isSome = true ∨ l.passwordUsed = true

/-- The form carries an error. -/
def Callback.CarriesError (i : Callback) : Prop :=
  ∃ form, i.form = some form ∧ form.error ≠ .null

/-- The saved password is given to a field that is meant for it. -/
def Placed (profile : Profile Url) (password : Option String) (i : Callback) (n : Note) : Prop :=
  ∃ form authId f answer value, i.form = some form ∧ form.authId = .text authId ∧
    n = .wrote f answer value ∧ password = some answer.text ∧ authId.text ≠ "_challenge" ∧
    form.passwords ≤ 1 ∧ f.kind = .password ∧ initialPassword profile authId.text f.name = true

theorem preselect_uses {authId : String} {shown : List Bound} (b : Bound) (desired : String) :
    Uses profile l authId shown (l.preselect i b desired) := by
  have hwrote {l' : Login} (id value : String) (rest : List Note) (result : Run ℕ)
      (hrest : ∀ n ∈ rest, ∃ k, n = .grouped k) (hselect : b.field.kind = .select)
      (hl : l' = l ∨ ∃ id, l' = { l with groupSelected := id }) :
      Uses profile l authId shown ⟨l', .wrote b.field ⟨id, .profile⟩ value :: rest, result⟩ := by
    refine ⟨.wrote hrest (fun hpassword => ?_) (hl.imp_right .inr), fun n hn hsaved => ?_⟩
    · exact absurd (hselect.symm.trans hpassword) (by decide)
    · obtain rfl | hn := List.mem_cons.1 hn
      · cases hsaved
      · obtain ⟨k, rfl⟩ := hrest n hn
        cases hsaved
  rw [Login.preselect]
  split
  next => exact .failed rfl rfl
  next hselect =>
    have hselect := not_not.1 hselect
    split
    next => exact .failed rfl rfl
    next =>
      split
      next => exact .failed rfl rfl
      next selection _ =>
        split
        next => exact .failed rfl rfl
        next =>
          dsimp only
          split
          next => exact hwrote _ _ [] _ nofun hselect (.inl rfl)
          next => exact hwrote _ _ [.grouped selection] _ (by simp) hselect (.inr ⟨_, rfl⟩)

theorem read_eq_ok {p : TextPointer} {t : NativeText} : p.read = .ok t ↔ p = .text t := by
  cases p <;> simp [TextPointer.read]

theorem readOptional_isSome {p : TextPointer} {t : Option NativeText}
    (h : p.readOptional = .ok t) : t.isSome = true ↔ p ≠ .null := by
  cases p with
  | null =>
    obtain rfl := Except.ok.inj h
    simp
  | unreadable e => cases h
  | text t' =>
    obtain rfl := Except.ok.inj h
    simp

/-- What is known of a header. -/
theorem header_spec {form : NativeForm} {promptId : Uuid} {header : AuthPrompt}
    (h : form.header promptId attemptId = .ok header) :
    (∃ authId, form.authId = .text authId ∧ header.authId = authId.text) ∧
      (header.error.isSome = true ↔ form.error ≠ .null) := by
  simp only [NativeForm.header, Exec.bind_eq_ok] at h
  obtain ⟨authId, hauthId, banner, -, message, -, error, herror, h⟩ := h
  obtain rfl := Except.ok.inj h
  refine ⟨⟨authId, read_eq_ok.1 hauthId, rfl⟩, ?_⟩
  rw [← readOptional_isSome herror, Option.isSome_map]

/-- What is written once the header is read. -/
theorem choose_placed {form : NativeForm} {header : AuthPrompt} {authId : NativeText}
    (hform : i.form = some form) (hauthId : form.authId = .text authId)
    (hheader : header.authId = authId.text) :
    Careful l (l.choose profile i form header).login (l.choose profile i form header).notes
        (∃ fault, (l.choose profile i form header).result = .error fault) ∧
      ∀ n ∈ (l.choose profile i form header).notes, n.saved = true →
        l.passwordUsed = false ∧ Placed profile l.password i n := by
  -- A suitable field among fields with the passwords of the form.
  have hplaced {shown : List Bound} {e : Ending} (h : Uses profile l header.authId shown e)
      (hcount : shown.countP isPassword = 1 → form.passwords ≤ 1) :
      Careful l e.login e.notes (∃ fault, e.result = .error fault) ∧
        ∀ n ∈ e.notes, n.saved = true → l.passwordUsed = false ∧ Placed profile l.password i n := by
    refine ⟨h.careful, fun n hn hsaved => ?_⟩
    obtain ⟨f, answer, value, heq, hsuits⟩ := h.saved n hn hsaved
    have hkind := hsuits.kind
    rw [hheader] at hsuits
    exact ⟨hsuits.unused, form, authId, f, answer, value, hform, hauthId, heq, hsuits.password,
      hsuits.authId_ne, hcount hkind.2, hkind.1, hsuits.name⟩
  rw [Login.choose]
  split
  next => exact ⟨.silent rfl rfl, fun _ hn => nomatch hn⟩
  next bound hbound =>
    have hfields := readOptions_fields hbound
    split
    next b hfind _ =>
      -- The group is a selection, so a form narrowed to it shows no password.
      have hselect : b.field.kind = .select := by
        have hb := hfields.kinds b (List.mem_of_find?_eq_some hfind)
        obtain hb | ⟨j, opt, hopt, hoption, hkind⟩ := hb
        · cases hb
        · have hgroup : form.group = some b.option := by simpa using List.find?_some hfind
          rw [Nat.zero_add] at hoption
          rw [hoption] at hgroup
          rw [form.group_kind j opt hgroup hopt] at hkind
          exact (Except.ok.inj hkind).symm
      have hnone : [b].countP isPassword = 0 := by
        simp [isPassword, hselect]
      split
      next => exact hplaced (preselect_uses b _) fun h => absurd (hnone.symm.trans h) (by decide)
      next =>
        have hnames : ([b].map (·.field.name)).Nodup := List.nodup_singleton _
        exact hplaced (answer_uses hnames i header) fun h => absurd (hnone.symm.trans h) (by decide)
    next =>
      refine hplaced (answer_uses (hfields.names List.nodup_nil) i header) fun h => ?_
      rw [hfields.passwords, List.countP_nil, Nat.zero_add] at h
      exact Nat.le_of_eq h

/-- What one form does with the password. -/
theorem Login.form_spec (profile : Profile Url) (attemptId : Uuid) (l : Login) (i : Callback) :
    Careful l (l.form profile attemptId i).login (l.form profile attemptId i).notes
        (∃ fault, (l.form profile attemptId i).result = .error fault) ∧
      (∀ n ∈ (l.form profile attemptId i).notes, n.saved = true →
        ¬l.Spent ∧ ¬i.CarriesError ∧ Placed profile l.password i n) ∧
      (i.CarriesError → (l.form profile attemptId i).login.passwordUsed = true ∨
        ∃ fault, (l.form profile attemptId i).result = .error fault) := by
  rw [Login.form]
  split
  next => exact ⟨.silent rfl rfl, fun _ hn => (nomatch hn), fun _ => .inr ⟨_, rfl⟩⟩
  next hfailure =>
    split
    next => exact ⟨.silent rfl rfl, fun _ hn => (nomatch hn), fun _ => .inr ⟨_, rfl⟩⟩
    next =>
      split
      next => exact ⟨.silent rfl rfl, fun _ hn => (nomatch hn), fun _ => .inr ⟨_, rfl⟩⟩
      next form hform =>
        split
        next => exact ⟨.silent rfl rfl, fun _ hn => (nomatch hn), fun _ => .inr ⟨_, rfl⟩⟩
        next header hheader =>
          obtain ⟨⟨authId, hauthId, htext⟩, herror⟩ := header_spec hheader
          have hcarries : i.CarriesError ↔ header.error.isSome = true := by
            rw [herror, Callback.CarriesError, hform]
            simp
          split
          next hsome =>
            obtain ⟨hcareful, hplaced⟩ := @choose_placed Url profile l.spend i form header authId
              hform hauthId htext
            refine ⟨⟨hcareful.order, hcareful.spends, fun _ => hcareful.used rfl, ?_⟩, ?_, ?_⟩
            · exact .inr (hcareful.password.elim id id)
            · exact fun n hn hsaved => absurd (hplaced n hn hsaved).1.symm Bool.false_ne_true
            · exact fun _ => .inl (hcareful.used rfl)
          next hnone =>
            obtain ⟨hcareful, hplaced⟩ := @choose_placed Url profile l i form header authId
              hform hauthId htext
            refine ⟨hcareful, fun n hn hsaved => ?_, fun h => absurd (hcarries.1 h) hnone⟩
            obtain ⟨hunused, hplaced⟩ := hplaced n hn hsaved
            refine ⟨not_or.2 ⟨hfailure, ?_⟩, fun h => hnone (hcarries.1 h), hplaced⟩
            simp [hunused]

/-- What a call of a session does with the password. -/
structure Calls (profile : Profile Url) (l : Login) (c : Call) (l' : Login) (notes : List Note) :
    Prop where
  order : notes.Pairwise Note.Before
  spends : ∀ n ∈ notes, n.onPassword = true → l'.Spent
  spent : l.Spent → l'.Spent
  error : ∀ i, c = .form i → i.CarriesError → l'.Spent
  password : l'.password = l.password ∨ l'.password = none
  saved : ∀ n ∈ notes, n.saved = true → ¬l.Spent ∧
    ∃ i, c = .form i ∧ ¬i.CarriesError ∧ Placed profile l.password i n

theorem Login.call_spec (profile : Profile Url) (attemptId : Uuid) (l : Login) (c : Call) :
    Calls profile l c (l.call profile attemptId c).1 (l.call profile attemptId c).2 := by
  cases c with
  | failed error =>
    have hspent : Login.Spent { l with failure := l.failure.or (some error) } := by
      refine .inl ?_
      rw [Option.isSome_or]
      exact Bool.or_true _
    rw [Login.call]
    exact ⟨.nil, fun _ hn => (nomatch hn), fun _ => hspent, fun _ h => (nomatch h), .inl rfl,
      fun _ hn => nomatch hn⟩
  | form i =>
    obtain ⟨hcareful, hsaved, herror⟩ := l.form_spec profile attemptId i
    -- The failure of the callback is kept.
    have hspent (h : (l.form profile attemptId i).login.passwordUsed = true ∨
        ∃ fault, (l.form profile attemptId i).result = .error fault) :
        (l.call profile attemptId (.form i)).1.Spent := by
      rw [Login.call]
      cases hresult : (l.form profile attemptId i).result with
      | ok code =>
        obtain hused | ⟨fault, hfault⟩ := h
        · exact .inr hused
        · cases hresult.symm.trans hfault
      | error fault =>
        refine .inl ?_
        rw [Option.isSome_or]
        exact Bool.or_true _
    have hnotes : (l.call profile attemptId (.form i)).2 = (l.form profile attemptId i).notes := by
      rw [Login.call]
      cases (l.form profile attemptId i).result <;> rfl
    have hpassword : (l.call profile attemptId (.form i)).1.password =
        (l.form profile attemptId i).login.password := by
      rw [Login.call]
      cases (l.form profile attemptId i).result <;> rfl
    rw [hnotes]
    refine ⟨hcareful.order, fun n hn h => hspent (hcareful.spends n hn h), fun h => ?_, ?_, ?_, ?_⟩
    · obtain hfailure | hused := h
      · refine hspent (.inr ?_)
        rw [Login.form, if_pos hfailure]
        exact ⟨_, rfl⟩
      · exact hspent (.inl (hcareful.used hused))
    · rintro _ ⟨⟩ hcarries
      exact hspent (herror hcarries)
    · rw [hpassword]
      exact hcareful.password
    · intro n hn h
      obtain ⟨hunspent, hclean, hplaced⟩ := hsaved n hn h
      exact ⟨hunspent, i, rfl, hclean, hplaced⟩

/-! ### Sessions -/

theorem session_cons (profile : Profile Url) (attemptId : Uuid) (l : Login) (c : Call)
    (cs : List Call) :
    l.session profile attemptId (c :: cs) = (c, (l.call profile attemptId c).2) ::
      (l.call profile attemptId c).1.session profile attemptId cs := rfl

/-- Once spent, the saved password is not written again. -/
theorem session_spent (h : l.Spent) (cs : List Call) :
    ∀ n ∈ (l.session profile attemptId cs).flatMap (·.2), n.saved = false := by
  induction cs generalizing l with
  | nil => exact fun n hn => nomatch hn
  | cons c cs ih =>
    have hcall := l.call_spec profile attemptId c
    intro n hn
    rw [session_cons, List.flatMap_cons] at hn
    obtain hn | hn := List.mem_append.1 hn
    · by_contra hsaved
      exact (hcall.saved n hn (by simpa using hsaved)).1 h
    · exact ih (hcall.spent h) n hn

/-- No answer of a password field comes before the saved password. -/
theorem session_order (l : Login) (cs : List Call) :
    ((l.session profile attemptId cs).flatMap (·.2)).Pairwise Note.Before := by
  induction cs generalizing l with
  | nil => exact .nil
  | cons c cs ih =>
    have hcall := l.call_spec profile attemptId c
    rw [session_cons, List.flatMap_cons, List.pairwise_append]
    exact ⟨hcall.order, ih _, fun n hn n' hn' hpassword =>
      session_spent (hcall.spends n hn hpassword) cs n' hn'⟩

theorem session_placed {password : Option String}
    (hpassword : l.password = password ∨ l.password = none) (cs : List Call) :
    ∀ e ∈ l.session profile attemptId cs, ∀ n ∈ e.2, n.saved = true →
      ∃ i, e.1 = .form i ∧ Placed profile password i n := by
  induction cs generalizing l with
  | nil => exact fun e he => nomatch he
  | cons c cs ih =>
    have hcall := l.call_spec profile attemptId c
    intro e he n hn hsaved
    rw [session_cons] at he
    obtain rfl | he := List.mem_cons.1 he
    · obtain ⟨-, i, hi, -, form, authId, f, answer, value, hform, hauthId, heq, htext, hplace⟩ :=
        hcall.saved n hn hsaved
      have hsame : password = some answer.text := by
        obtain rfl | hnone := hpassword
        · exact htext
        · cases hnone.symm.trans htext
      exact ⟨i, hi, form, authId, f, answer, value, hform, hauthId, heq, hsame, hplace⟩
    · refine ih ?_ e he n hn hsaved
      obtain hkept | hnone := hcall.password
      · rwa [hkept]
      · exact .inr hnone

theorem session_error {cs : List Call} {before after : List (Call × List Note)}
    {notes : List Note} (h : l.session profile attemptId cs = before ++ (.form i, notes) :: after)
    (hcarries : i.CarriesError) : ∀ n ∈ notes ++ after.flatMap (·.2), n.saved = false := by
  induction cs generalizing l before with
  | nil => simp [Login.session] at h
  | cons c cs ih =>
    have hcall := l.call_spec profile attemptId c
    rw [session_cons] at h
    cases before with
    | nil =>
      obtain ⟨hhead, rfl⟩ := List.cons.inj h
      obtain ⟨rfl, rfl⟩ := Prod.mk.inj hhead
      intro n hn
      obtain hn | hn := List.mem_append.1 hn
      · by_contra hsaved
        obtain ⟨-, i', hi', hclean, -⟩ := hcall.saved n hn (by simpa using hsaved)
        exact hclean (Call.form.inj hi' ▸ hcarries)
      · exact session_spent (hcall.error i rfl hcarries) cs n hn
    | cons e before => exact ih (List.cons.inj h).2

/-- At most one of the notes has the saved password. -/
theorem countP_saved {notes : List Note} (horder : notes.Pairwise Note.Before)
    (h : ∀ n ∈ notes, n.saved = true → n.onPassword = true) : notes.countP Note.saved ≤ 1 := by
  induction notes with
  | nil => exact Nat.zero_le 1
  | cons n notes ih =>
    obtain ⟨hn, horder⟩ := List.pairwise_cons.1 horder
    have hnotes := ih horder fun n hn => h n (List.mem_cons_of_mem _ hn)
    by_cases hsaved : n.saved = true
    · have hrest : notes.countP Note.saved = 0 := List.countP_eq_zero.2 fun n' hn' => by
        simp [hn n' hn' (h n List.mem_cons_self hsaved)]
      rw [List.countP_cons_of_pos hsaved, hrest]
    · rwa [List.countP_cons_of_neg hsaved]

/-- The saved password in a session. -/
structure Once (profile : Profile Url) (password : Option String)
    (trace : List (Call × List Note)) : Prop where
  once : (trace.flatMap (·.2)).countP Note.saved ≤ 1
  /-- Not on or after a form with an error. -/
  error : ∀ before i notes after, trace = before ++ (.form i, notes) :: after → i.CarriesError →
    ∀ n ∈ notes ++ after.flatMap (·.2), n.saved = false
  /-- Not after the answer of a password field. -/
  unanswered : ∀ before n after, trace.flatMap (·.2) = before ++ n :: after →
    n.onPassword = true → ∀ n' ∈ after, n'.saved = false
  placed : ∀ e ∈ trace, ∀ n ∈ e.2, n.saved = true → ∃ i, e.1 = .form i ∧ Placed profile password i n

/-- **The saved password** of a session is written once, before every other password, and only to a
field that is meant for it. -/
theorem password_once (profile : Profile Url) (attemptId : Uuid) (password : Option String)
    (cs : List Call) :
    Once profile password (Login.session profile attemptId { password } cs) := by
  have horder := @session_order Url profile attemptId { password } cs
  have hplaced := @session_placed Url profile attemptId { password } password (.inl rfl) cs
  refine ⟨countP_saved horder fun n hn hsaved => ?_, fun before i notes after => session_error,
    fun before n after htrace hpassword n' hn' => ?_, hplaced⟩
  · obtain ⟨e, he, hn⟩ := List.mem_flatMap.1 hn
    obtain ⟨i, -, form, authId, f, answer, value, -, -, rfl, -, -, -, hkind, -⟩ :=
      hplaced e he n hn hsaved
    exact decide_eq_true hkind
  · rw [htrace, List.pairwise_append, List.pairwise_cons] at horder
    exact horder.2.1.1 n' hn' hpassword

end

/-- A form that asks for a name and a password. -/
def loginForm : NativeForm where
  authId := .text ⟨"main", by decide, by decide⟩
  banner := .null
  message := .null
  error := .null
  options := [
    { flags := 0, kind := 1, name := .text ⟨"username", by decide, by decide⟩, label := .null
      choices := none },
    { flags := 0, kind := 2, name := .text ⟨"Password", by decide, by decide⟩, label := .null
      choices := none }]
  group := none
  group_kind := by simp

/-- The call for such a form; nobody answers. -/
def loginCallback : Callback where
  cancelled := false
  promptId := 1
  form := some loginForm
  delivered := true
  response := Exec.fail expired
  accepts := fun _ _ => true

/-- A profile that knows the name. -/
def loginProfile : Profile ℕ where
  id := 1
  revision := 1
  name := "login"
  protocol := "anyconnect"
  server := 0
  username := some "user"

/-- The first such form gets the saved password; at the second the user is asked. -/
example : ((Login.session loginProfile 2 { password := some "secret" }
    [.form loginCallback, .form loginCallback]).flatMap (·.2)).map Note.saved =
      [false, true, false] := by
  decide +kernel

end Ocvpn.Auth.Forms
