import Ocvpn.Unix.Routes

/-!
# Routes that are written and written back

A planned list of routes is written, and then the list that was there before.  A slot is a metric of
the prefix: `add_route` empties it for the planned route, and iproute2 replaces one route of it.

## Main results

* `writeRoutes_spec`, `removeRoutes_spec` : what the two loops of `write` do.
* `write_reversible_iff` : when the planned list is reached and the old one comes back.
-/

namespace Ocvpn.Net.Linux

open Crash Unix Slots

variable {pre : String} {S : Iproute pre} {table : String}

/-! ### Reading -/

/-- What iproute2 and `serde_json` do with some routes: a command finds the route that its arguments
were written for, and different routes have different texts. -/
structure Iproute.Describes (S : Iproute pre) (table : String) (vs : List Value) : Prop where
  row : ∀ v ∈ vs, ∀ action ∈ ["replace", "del"], ∀ args, routeArgs S table action v = .ok args →
    (S.row args).route = v
  text : ∀ v ∈ vs, ∀ w ∈ vs, S.toText v = S.toText w → v = w

/-- The routes of some rows, as they are listed. -/
def routes (rows : Rows S) : List Value := rows.map Row.route

theorem routeState_eq (rows : Rows S) : routeState S rows = .ok (sortByText S (routes rows)) := by
  have hrows : (rows.mapM fun row => canonicalRoute S.ifIndex pre row.shown) =
      .ok (routes rows) := by
    induction rows with
    | nil => rfl
    | cons row rows ih =>
      rw [List.mapM_cons, row.canonical, ih]
      rfl
  rw [routeState, hrows]
  rfl

variable (S) in
theorem sortByText_perm (l : List Value) : (sortByText S l).Perm l := List.perm_insertionSort _ l

/-- Sorting forgets the order. -/
theorem sortByText_eq_of_perm {l l' : List Value}
    (htext : ∀ v ∈ l, ∀ w ∈ l, S.toText v = S.toText w → v = w) (h : l.Perm l') :
    sortByText S l = sortByText S l' := by
  have hsorted : ∀ l : List Value, (sortByText S l).Pairwise fun a b => S.toText a ≤ S.toText b :=
    fun l => List.pairwise_insertionSort _ l
  have hperm := ((sortByText_perm S l).trans h).trans (sortByText_perm S l').symm
  refine hperm.eq_of_pairwise (fun v w hv hw hvw hwv => ?_) (hsorted l) (hsorted l')
  have hv := (sortByText_perm S l).mem_iff.1 hv
  have hw := (h.mem_iff.2 ((sortByText_perm S l').mem_iff.1 hw))
  exact htext v hv w hw (le_antisymm hvw hwv)

/-! ### Commands -/

theorem ipReplace_substituted {args : List String} {v : Value} {rows : Rows S}
    (h : (S.row args).route = v) :
    Substituted metric [v] (routes rows) (routes (ipReplace S args rows)) := by
  have hmap := map_substitute metric Row.route (S.row args) rows
  rw [h] at hmap
  rw [ipReplace]
  cases hrows : substitute (metric ∘ Row.route) (S.row args) rows with
  | some rows' =>
    rw [hrows] at hmap
    exact .of_substitute hmap.symm
  | none =>
    rw [hrows] at hmap
    refine .of_perm (substitute_eq_none.1 hmap.symm) ?_
    have hperm := (S.add_perm (S.row args) rows).map Row.route
    rwa [List.map_cons, h] at hperm

theorem routes_ipDel {args : List String} {v : Value} {rows : Rows S}
    (h : (S.row args).route = v) : routes (ipDel S args rows) = (routes rows).erase v := by
  rw [ipDel, routes, routes, List.erase_eq_eraseP', List.eraseP_map, h]
  congr 2

/-! ### The loops of `write` -/

/-- The first loop. -/
theorem writeRoutes_spec {current target : List Value} {rows : Rows S}
    (hrow : ∀ v ∈ target, ∀ args, routeArgs S table "replace" v = .ok args →
      (S.row args).route = v)
    (hnodup : ((target.filter (· ∉ current)).map metric).Nodup) :
    Spec False (· = rows) (writeRoutes S table current target)
      (fun _ w => Substituted metric (target.filter (· ∉ current)) (routes rows) (routes w) ∧
        ∀ v ∈ target, v ∉ current → Acceptable S v)
      (fun _ _ => ∃ v ∈ target, v ∉ current ∧ ¬ Acceptable S v) fun _ => False := by
  induction target generalizing rows with
  | nil =>
    refine Spec.pure ?_
    rintro _ rfl
    exact ⟨.nil, nofun⟩
  | cons v target ih =>
    have hrow' := fun w hw => hrow w (List.mem_cons_of_mem _ hw)
    by_cases hv : v ∈ current
    · -- the route is there already
      have hfilter : (v :: target).filter (· ∉ current) = target.filter (· ∉ current) :=
        List.filter_cons_of_neg (by simpa using hv)
      rw [hfilter] at hnodup ⊢
      refine Spec.bind (R := fun _ w => w = rows) ?_ fun _ => ?_
      · dsimp only
        rw [if_pos (by simpa using hv)]
        exact Spec.pure fun _ => id
      · refine (ih hrow' hnodup).mono (fun _ => id) ?_ ?_ fun _ => id
        · rintro - w ⟨hsubst, hall⟩
          refine ⟨hsubst, List.forall_mem_cons.2 ⟨fun h => absurd hv h, hall⟩⟩
        · rintro - w ⟨u, hu, hrest⟩
          exact ⟨u, List.mem_cons_of_mem _ hu, hrest⟩
    · have hfilter : (v :: target).filter (· ∉ current) = v :: target.filter (· ∉ current) :=
        List.filter_cons_of_pos (by simpa using hv)
      rw [hfilter] at hnodup ⊢
      obtain ⟨hnew, hnodup⟩ := List.nodup_cons.1 hnodup
      refine Spec.bind (R := fun _ w => Substituted metric [v] (routes rows) (routes w) ∧
        Acceptable S v) ?_ fun _ => Spec.each ?_
      · dsimp only
        rw [if_neg (by simpa using hv)]
        refine Spec.bind (R := fun args w => w = rows ∧ (S.row args).route = v ∧ Acceptable S v)
          (Spec.ofExcept ?_ ?_) fun args => Spec.act ?_ ?_ nofun
        · rintro _ args rfl hargs
          exact ⟨rfl, hrow v List.mem_cons_self args hargs, (routeArgs_ok S table).1 ⟨args, hargs⟩⟩
        · rintro _ e - hargs
          refine ⟨v, List.mem_cons_self, hv, fun hacceptable => ?_⟩
          obtain ⟨args, hok⟩ := (routeArgs_ok S table).2 hacceptable
          cases hargs.symm.trans hok
        · rintro _ _ ⟨rfl, hroute, hacceptable⟩ ⟨⟩
          exact ⟨ipReplace_substituted hroute, hacceptable⟩
        · rintro _ e - ⟨⟩
      · rintro w ⟨hsubst, hacceptable⟩
        refine (ih hrow' hnodup).mono (fun _ => id) ?_ ?_ fun _ => id
        · rintro - w' ⟨hrest, hall⟩
          exact ⟨hsubst.cons hrest hnew, List.forall_mem_cons.2 ⟨fun _ => hacceptable, hall⟩⟩
        · rintro - w' ⟨u, hu, hrest⟩
          exact ⟨u, List.mem_cons_of_mem _ hu, hrest⟩

/-- The second loop. -/
theorem removeRoutes_spec {current target : List Value} {rows : Rows S}
    (hrow : ∀ v ∈ current, ∀ args, routeArgs S table "del" v = .ok args → (S.row args).route = v) :
    Spec False (· = rows) (removeRoutes S table target current)
      (fun _ w => routes w = (routes rows).diff (excess metric target current))
      (fun _ _ => ∃ v ∈ current, metric v ∉ target.map metric ∧ ¬ Acceptable S v)
      fun _ => False := by
  induction current generalizing rows with
  | nil =>
    refine Spec.pure ?_
    rintro _ rfl
    rfl
  | cons v current ih =>
    have hrow' := fun w hw => hrow w (List.mem_cons_of_mem _ hw)
    -- the source compares metrics only
    have hany : (target.any fun u => metric u = metric v) = true ↔ metric v ∈ target.map metric := by
      simp [List.mem_map]
    by_cases hv : metric v ∈ target.map metric
    · have hexcess : excess metric target (v :: current) = excess metric target current :=
        List.filter_cons_of_neg (by simpa using hv)
      rw [hexcess]
      refine Spec.bind (R := fun _ w => w = rows) ?_ fun _ => ?_
      · dsimp only
        rw [if_pos (hany.2 hv)]
        exact Spec.pure fun _ => id
      · refine (ih hrow').mono (fun _ => id) (fun _ _ => id) ?_ fun _ => id
        rintro - w ⟨u, hu, hrest⟩
        exact ⟨u, List.mem_cons_of_mem _ hu, hrest⟩
    · have hexcess : excess metric target (v :: current) = v :: excess metric target current :=
        List.filter_cons_of_pos (by simpa using hv)
      rw [hexcess, List.diff_cons]
      refine Spec.bind (R := fun _ w => routes w = (routes rows).erase v) ?_ fun _ => Spec.each ?_
      · dsimp only
        rw [if_neg fun h => hv (hany.1 h)]
        refine Spec.bind (R := fun args w => w = rows ∧ (S.row args).route = v)
          (Spec.ofExcept ?_ ?_) fun args => Spec.act ?_ ?_ nofun
        · rintro _ args rfl hargs
          exact ⟨rfl, hrow v List.mem_cons_self args hargs⟩
        · rintro _ e - hargs
          refine ⟨v, List.mem_cons_self, hv, fun hacceptable => ?_⟩
          obtain ⟨args, hok⟩ := (routeArgs_ok S table).2 hacceptable
          cases hargs.symm.trans hok
        · rintro _ _ ⟨rfl, hroute⟩ ⟨⟩
          exact routes_ipDel hroute
        · rintro _ e - ⟨⟩
      · rintro w hw
        refine (ih hrow').mono (fun _ => id) ?_ ?_ fun _ => id
        · rintro - w' hrest
          rw [hrest, hw]
        · rintro - w' ⟨u, hu, hrest⟩
          exact ⟨u, List.mem_cons_of_mem _ hu, hrest⟩

/-- What a write leads to. -/
structure Written (S : Iproute pre) (target : List Value) (rows w : Rows S) : Prop where
  reached : ∃ l, Substituted metric (target.filter (· ∉ sortByText S (routes rows))) (routes rows) l ∧
    routes w = l.diff (excess metric target (sortByText S (routes rows)))
  acceptable : ∀ v ∈ target, v ∉ routes rows → Acceptable S v

theorem write_spec {target : List Value} {rows : Rows S} {parts : String × String}
    (hname : routeParts (routeName table pre) = .ok parts)
    (hS : ∀ v ∈ target ++ routes rows, ∀ action ∈ ["replace", "del"], ∀ args,
      routeArgs S table action v = .ok args → (S.row args).route = v)
    (hnodup : ((target.filter (· ∉ sortByText S (routes rows))).map metric).Nodup) :
    Spec False (· = rows) (write S table (some (.arr target)))
      (fun _ w => Written S target rows w)
      (fun _ _ => (∃ v ∈ target, v ∉ routes rows ∧ ¬ Acceptable S v) ∨
        ∃ v ∈ routes rows, metric v ∉ target.map metric ∧ ¬ Acceptable S v) fun _ => False := by
  have hmem : ∀ v, v ∈ sortByText S (routes rows) ↔ v ∈ routes rows := fun v =>
    (sortByText_perm S _).mem_iff
  rw [write, hname]
  refine Spec.bind (R := fun current w => w = rows ∧ current = sortByText S (routes rows))
    (Spec.query ?_ ?_ nofun) fun current => Spec.intro (fun w hw => hw.2) ?_
  · rintro _ current rfl hcurrent
    rw [routeState_eq] at hcurrent
    cases hcurrent
    exact ⟨rfl, rfl⟩
  · rintro _ e rfl hcurrent
    rw [routeState_eq] at hcurrent
    cases hcurrent
  · rintro rfl
    refine Spec.bind ((writeRoutes_spec (fun v hv => hS v (List.mem_append_left _ hv) "replace"
      (by decide)) hnodup).mono (fun _ hw => hw.1) (fun _ _ => id) ?_ fun _ => id) fun _ => Spec.each ?_
    · rintro - w ⟨v, hv, hnew, hrest⟩
      exact .inl ⟨v, hv, fun h => hnew ((hmem v).2 h), hrest⟩
    · rintro w ⟨hsubst, hall⟩
      refine (removeRoutes_spec fun v hv => hS v (List.mem_append_right _ ((hmem v).1 hv))
        "del" (by decide)).mono (fun _ => id) ?_ ?_ fun _ => id
      · rintro - w' hw'
        exact ⟨⟨_, hsubst, hw'⟩, fun v hv hnew => hall v hv fun h => hnew ((hmem v).1 h)⟩
      · rintro - w' ⟨v, hv, hrest⟩
        exact .inr ⟨v, (hmem v).1 hv, hrest⟩

/-! ### Planning -/

/-- The mutation of the key, for a planned list of routes. -/
def routeMutation (S : Iproute pre) (table : String) (rows : Rows S) (values : List Value) :
    Mutation where
  key := routeKey table pre
  before := some (.arr (sortByText S (routes rows)))
  intended := some (.arr values)
  applied := none

theorem addRoute_new {rows : Rows S} {plan : List Mutation} {parts : String × String} {r : Value}
    (hname : routeParts (routeName table pre) = .ok parts)
    (hplan : ∀ m ∈ plan, m.key ≠ routeKey table pre) : addRoute S table rows plan r =
      .ok (plan ++ [routeMutation S table rows (slotted S r (sortByText S (routes rows)))]) := by
  have hfind : plan.findIdx? (·.key = routeKey table pre) = none := by
    rw [List.findIdx?_eq_none_iff]
    intro m hm
    simpa using hplan m hm
  rw [addRoute, hfind]
  dsimp only
  rw [hname, routeState_eq]
  rfl

theorem addRoute_old {rows : Rows S} {plan : List Mutation} {values : List Value} {r : Value}
    (hplan : ∀ m ∈ plan, m.key ≠ routeKey table pre) :
    addRoute S table rows (plan ++ [routeMutation S table rows values]) r =
      .ok (plan ++ [routeMutation S table rows (slotted S r values)]) := by
  have hfind : (plan ++ [routeMutation S table rows values]).findIdx?
      (·.key = routeKey table pre) = some plan.length := by
    rw [List.findIdx?_append, List.findIdx?_eq_none_iff.2 fun m hm => by simpa using hplan m hm]
    simp [routeMutation, List.findIdx?_cons]
  have hget : (plan ++ [routeMutation S table rows values])[plan.length]? =
      some (routeMutation S table rows values) := by simp
  have hmodify : ∀ f : Mutation → Mutation,
      (plan ++ [routeMutation S table rows values]).modify plan.length f =
        plan ++ [f (routeMutation S table rows values)] := fun f => by
    rw [List.modify_eq_take_cons_drop (by simp)]
    simp
  rw [addRoute, hfind]
  dsimp only
  rw [hget]
  show Except.ok ((plan ++ [_]).modify _ _) = _
  rw [hmodify]
  rfl

/-- `add_route`, for one route after the other. -/
theorem foldlM_addRoute_old {rows : Rows S} {plan : List Mutation} {values rs : List Value}
    (hplan : ∀ m ∈ plan, m.key ≠ routeKey table pre) :
    rs.foldlM (addRoute S table rows) (plan ++ [routeMutation S table rows values]) =
      .ok (plan ++ [routeMutation S table rows (rs.foldl (fun l r => slotted S r l) values)]) := by
  induction rs generalizing values with
  | nil => rfl
  | cons r rs ih =>
    rw [List.foldlM_cons, addRoute_old hplan]
    exact ih

/-- The mutation that `add_route` leaves for its key. -/
theorem foldlM_addRoute {rows : Rows S} {plan plan' : List Mutation} {rs : List Value}
    {m : Mutation} (hrs : rs ≠ []) (hplan : ∀ m ∈ plan, m.key ≠ routeKey table pre)
    (h : rs.foldlM (addRoute S table rows) plan = .ok plan') (hm : m ∈ plan')
    (hkey : m.key = routeKey table pre) :
    (∃ parts, routeParts (routeName table pre) = .ok parts) ∧ m = routeMutation S table rows
      (rs.foldl (fun l r => slotted S r l) (sortByText S (routes rows))) := by
  cases rs with
  | nil => exact absurd rfl hrs
  | cons r rs =>
    cases hname : routeParts (routeName table pre) with
    | error e =>
      have hfind : plan.findIdx? (·.key = routeKey table pre) = none := by
        rw [List.findIdx?_eq_none_iff]
        intro m hm
        simpa using hplan m hm
      rw [List.foldlM_cons, addRoute, hfind] at h
      dsimp only at h
      rw [hname] at h
      cases h
    | ok parts =>
      rw [List.foldlM_cons, addRoute_new hname hplan] at h
      cases (foldlM_addRoute_old hplan).symm.trans h
      obtain hm | hm := List.mem_append.1 hm
      · exact absurd hkey (hplan m hm)
      · exact ⟨⟨parts, rfl⟩, List.mem_singleton.1 hm⟩

theorem slotted_perm {r : Value} {l l' : List Value} (h : l.Perm l') :
    (slotted S r l).Perm (assign metric r l') :=
  (sortByText_perm S _).trans ((h.filter _).append_right _)

theorem foldl_slotted_perm (S : Iproute pre) (rs : List Value) {l l' : List Value}
    (h : l.Perm l') :
    (rs.foldl (fun l r => slotted S r l) l).Perm (rs.foldl (fun l r => assign metric r l) l') := by
  induction rs generalizing l l' with
  | nil => exact h
  | cons r rs ih => exact ih (slotted_perm h)

/-- A planned list of routes is sorted. -/
theorem foldl_slotted_sorted {rs l : List Value} (hrs : rs ≠ []) :
    ∃ l', rs.foldl (fun l r => slotted S r l) l = sortByText S l' := by
  obtain ⟨rs, r, rfl⟩ := (List.eq_nil_or_concat rs).resolve_left hrs
  rw [List.concat_eq_append, List.foldl_append]
  exact ⟨_, rfl⟩

/-! ### The slots of a plan -/

/-- The planned list of routes: a slot of a planned route holds it alone, the other slots are as they
were. -/
structure SlotPlan (rs before intended : List Value) : Prop where
  same : ∀ k ∉ rs.map metric, (slot metric k intended).Perm (slot metric k before)
  planned : ∀ k ∈ rs.map metric, ∃ r ∈ rs, slot metric k intended = [r]

theorem planned_foldl_slotted (S : Iproute pre) (rs : List Value) {before l : List Value}
    (h : l.Perm before) :
    SlotPlan rs before (rs.foldl (fun l r => slotted S r l) l) := by
  have hperm := foldl_slotted_perm S rs h
  constructor
  · intro k hk
    have hslot := slot_perm metric k hperm
    rwa [slot_foldl_assign_of_notMem hk] at hslot
  · intro k hk
    obtain ⟨r, hr, hslot⟩ := slot_foldl_assign (l := before) hk
    have hsingle := slot_perm metric k hperm
    rw [hslot] at hsingle
    exact ⟨r, hr, List.perm_singleton.1 hsingle⟩

/-- A slot that the plan leaves alone has nothing new. -/
theorem SlotPlan.mem_iff {rs before intended : List Value} (h : SlotPlan rs before intended)
    {v : Value} (hv : metric v ∉ rs.map metric) : v ∈ intended ↔ v ∈ before := by
  have hslot : ∀ l : List Value, v ∈ l ↔ v ∈ slot metric (metric v) l := by simp
  rw [hslot, hslot before, (h.same _ hv).mem_iff]

/-- A new element of the plan is alone in its slot. -/
theorem SlotPlan.single {rs before intended : List Value} (h : SlotPlan rs before intended)
    {n : Value} (hn : n ∈ intended) (hnew : n ∉ before) : slot metric (metric n) intended = [n] := by
  by_cases hk : metric n ∈ rs.map metric
  · obtain ⟨r, -, hslot⟩ := h.planned _ hk
    have hmem : n ∈ slot metric (metric n) intended := mem_slot.2 ⟨hn, rfl⟩
    rw [hslot] at hmem ⊢
    rw [List.mem_singleton.1 hmem]
  · exact absurd ((h.mem_iff hk).1 hn) hnew

/-! ### Where a write leads -/

theorem Written.perm_iff {target : List Value} {rows w : Rows S} (h : Written S target rows w)
    (hsingle : ∀ n ∈ target, n ∉ routes rows → slot metric (metric n) target = [n]) :
    (routes w).Perm target ↔
      (∀ n ∈ target, n ∉ routes rows → (slot metric (metric n) (routes rows)).length ≤ 1) ∧
        ∀ k ∈ target.map metric, (∀ n ∈ target, n ∉ routes rows → metric n ≠ k) →
          (slot metric k (routes rows)).Perm (slot metric k target) := by
  have hmem : ∀ v, v ∈ sortByText S (routes rows) ↔ v ∈ routes rows := fun v =>
    (sortByText_perm S _).mem_iff
  obtain ⟨⟨l, hsubst, hw⟩, -⟩ := h
  rw [hw, hsubst.perm_iff (sortByText_perm S _).symm fun n hn hcurrent =>
    hsingle n hn fun h => hcurrent ((hmem n).2 h)]
  simp only [hmem]

/-- The planned list is reached if no slot of a planned route held several routes, and only then. -/
theorem Written.intended_iff {rs intended : List Value} {rows w : Rows S}
    (hplan : SlotPlan rs (routes rows) intended) (h : Written S intended rows w) :
    (routes w).Perm intended ↔ ∀ r ∈ rs, (slot metric (metric r) (routes rows)).length ≤ 1 := by
  rw [h.perm_iff fun n hn hnew => hplan.single hn hnew]
  constructor
  · rintro ⟨hnew, hold⟩ r hr
    have hk := List.mem_map_of_mem (f := metric) hr
    obtain ⟨r', -, hslot⟩ := hplan.planned _ hk
    obtain ⟨hr', hmetric⟩ := mem_slot.1 (hslot ▸ List.mem_singleton_self r')
    by_cases hbefore : r' ∈ routes rows
    · -- the planned route was there, and nothing is written to its slot
      have hslots := hold (metric r) (hmetric ▸ List.mem_map_of_mem hr') fun n hn hnew hkey => ?_
      · rw [hslots.length_eq, hslot, List.length_singleton]
      · have hmem : n ∈ slot metric (metric r) intended := mem_slot.2 ⟨hn, hkey⟩
        rw [hslot] at hmem
        exact hnew (List.mem_singleton.1 hmem ▸ hbefore)
    · rw [← hmetric]
      exact hnew r' hr' hbefore
  · intro hle
    have hle' : ∀ k ∈ rs.map metric, (slot metric k (routes rows)).length ≤ 1 := by
      rintro k hk
      obtain ⟨r, hr, rfl⟩ := List.mem_map.1 hk
      exact hle r hr
    constructor
    · intro n hn hnew
      refine hle' _ (by_contra fun hk => hnew ((hplan.mem_iff hk).1 hn))
    · intro k hk hnone
      by_cases hplanned : k ∈ rs.map metric
      · obtain ⟨r, -, hslot⟩ := hplan.planned k hplanned
        obtain ⟨hr, hmetric⟩ := mem_slot.1 (hslot ▸ List.mem_singleton_self r)
        have hbefore : r ∈ routes rows := by_contra fun h => hnone r hr h hmetric
        rw [hslot, slot_eq_singleton (hle' k hplanned) (mem_slot.2 ⟨hbefore, hmetric⟩)]
      · exact (hplan.same k hplanned).symm

/-- From the planned list the old one is reached, if no slot of a planned route held several. -/
theorem Written.before_perm {rs before intended : List Value} {w w' : Rows S}
    (hplan : SlotPlan rs before intended) (hw : (routes w).Perm intended)
    (hle : ∀ r ∈ rs, (slot metric (metric r) before).length ≤ 1)
    (h : Written S before w w') : (routes w').Perm before := by
  have hle' : ∀ k ∈ rs.map metric, (slot metric k before).length ≤ 1 := by
    rintro k hk
    obtain ⟨r, hr, rfl⟩ := List.mem_map.1 hk
    exact hle r hr
  have hplanned : ∀ n ∈ before, n ∉ routes w → metric n ∈ rs.map metric := fun n hn hnew =>
    by_contra fun hk => hnew (hw.mem_iff.2 ((hplan.mem_iff hk).2 hn))
  rw [h.perm_iff fun n hn hnew => slot_eq_singleton (hle' _ (hplanned n hn hnew))
    (mem_slot.2 ⟨hn, rfl⟩)]
  constructor
  · intro n hn hnew
    obtain ⟨r, -, hslot⟩ := hplan.planned _ (hplanned n hn hnew)
    rw [(slot_perm metric (metric n) hw).length_eq, hslot, List.length_singleton]
  · intro k hk hnone
    have hslots := slot_perm metric k hw
    by_cases hk' : k ∈ rs.map metric
    · obtain ⟨b, hb, hkey⟩ := List.mem_map.1 hk
      have hbw : b ∈ routes w := by_contra fun h => hnone b hb h hkey
      have hmem : b ∈ slot metric k intended := mem_slot.2 ⟨hw.mem_iff.1 hbw, hkey⟩
      obtain ⟨r, -, hslot⟩ := hplan.planned k hk'
      rw [hslot] at hmem hslots
      rw [slot_eq_singleton (hle' k hk') (mem_slot.2 ⟨hb, hkey⟩), List.mem_singleton.1 hmem]
      exact hslots
    · exact hslots.trans (hplan.same k hk')

/-! ### Slots while a write goes on -/

/-- The routes are known, and there is one of each given metric. -/
def Occupied (S : Iproute pre) (vs : List Value) (ks : Set (Option Value)) (w : Rows S) : Prop :=
  (∀ v ∈ routes w, v ∈ vs) ∧ ∀ k ∈ ks, k ∈ (routes w).map metric

theorem routes_ipReplace_subset {args : List String} {v : Value} {rows : Rows S}
    (h : (S.row args).route = v) : ∀ u ∈ routes (ipReplace S args rows), u = v ∨ u ∈ routes rows := by
  have hmap := map_substitute metric Row.route (S.row args) rows
  rw [h] at hmap
  intro u hu
  rw [ipReplace] at hu
  cases hrows : substitute (metric ∘ Row.route) (S.row args) rows with
  | some rows' =>
    rw [hrows] at hmap hu
    exact mem_of_mem_substitute hmap.symm hu
  | none =>
    rw [hrows] at hu
    have hperm := (S.add_perm (S.row args) rows).map Row.route
    rw [List.map_cons, h] at hperm
    exact List.mem_cons.1 (hperm.mem_iff.1 hu)

theorem writeRoutes_occupied {vs current target : List Value} {ks : Set (Option Value)}
    (hS : S.Describes table vs) (htarget : ∀ v ∈ target, v ∈ vs) :
    Keeps True (Occupied S vs ks) (writeRoutes S table current target) := by
  refine Keeps.forEach fun v hv => ?_
  split_ifs
  · exact Keeps.pure
  · refine Spec.bind (R := fun args w => Occupied S vs ks w ∧ (S.row args).route = v)
      (Spec.ofExcept (fun w args hw hargs => ⟨hw, hS.row v (htarget v hv) _ (by decide) args hargs⟩)
        fun _ _ hw _ => hw) fun args => Spec.intro (fun w hw => hw.2) fun hroute => ?_
    refine Spec.pre (Keeps.act ?_) fun w hw => hw.1
    rintro w _ ⟨hknown, hoccupied⟩ ⟨⟩
    refine ⟨fun u hu => ?_, fun k hk => (ipReplace_substituted hroute).occupied (hoccupied k hk)⟩
    obtain rfl | hu := routes_ipReplace_subset hroute u hu
    · exact htarget u hv
    · exact hknown u hu

theorem removeRoutes_occupied {vs current target : List Value} {ks : Set (Option Value)}
    (hS : S.Describes table vs) (hcurrent : ∀ v ∈ current, v ∈ vs) 
    (hks : ∀ k ∈ ks, k ∈ target.map metric) :
    Keeps True (Occupied S vs ks) (removeRoutes S table target current) := by
  refine Keeps.forEach fun v hv => ?_
  split_ifs with hany
  · exact Keeps.pure
  · refine Spec.bind (R := fun args w => Occupied S vs ks w ∧ (S.row args).route = v)
      (Spec.ofExcept (fun w args hw hargs => ⟨hw, hS.row v (hcurrent v hv) _ (by decide) args hargs⟩)
        fun _ _ hw _ => hw) fun args => Spec.intro (fun w hw => hw.2) fun hroute => ?_
    refine Spec.pre (Keeps.act ?_) fun w hw => hw.1
    rintro w _ ⟨hknown, hoccupied⟩ ⟨⟩
    rw [Occupied, routes_ipDel hroute]
    refine ⟨fun b hb => hknown b (List.mem_of_mem_erase hb), fun k hk => ?_⟩
    obtain ⟨u, hu, rfl⟩ := List.mem_map.1 (hoccupied k hk)
    refine List.mem_map_of_mem ((List.mem_erase_of_ne ?_).2 hu)
    -- the metric of a removed route will not be in use
    rintro rfl
    obtain ⟨b, hb, hmetric⟩ := List.mem_map.1 (hks _ hk)
    exact hany (List.any_eq_true.2 ⟨b, hb, by simpa using hmetric⟩)

theorem write_occupied {vs target : List Value} (ks : Set (Option Value))
    (hS : S.Describes table vs) (htarget : ∀ v ∈ target, v ∈ vs) 
    (hks : ∀ k ∈ ks, k ∈ target.map metric) :
    Keeps True (Occupied S vs ks) (write S table (some (.arr target))) := by
  rw [write]
  refine spec_ofRun_bind (fun parts _ => ?_) (fun _ _ hw _ => hw) fun _ hw _ =>
    ⟨True.intro, hw⟩
  refine Spec.bind (R := fun current w => Occupied S vs ks w ∧ ∀ v ∈ current, v ∈ vs)
    (Spec.query (fun w current hw hcurrent => ?_) (fun _ _ hw _ => hw) fun _ _ hw =>
      ⟨fun _ => hw, hw⟩) fun current => Spec.intro (fun w hw => hw.2) fun hcurrent => ?_
  · rw [routeState_eq] at hcurrent
    cases hcurrent
    exact ⟨hw, fun v hv => hw.1 v ((sortByText_perm S _).mem_iff.1 hv)⟩
  · refine Spec.pre (Keeps.bind ?_ fun _ => ?_) fun w hw => hw.1
    · exact writeRoutes_occupied hS htarget
    · exact removeRoutes_occupied hS hcurrent hks

/-! ### There and back -/

/-- `read`, of routes. -/
def readRoutes (S : Iproute pre) (rows : Rows S) : Except Error (Option Value) :=
  (routeState S rows).map fun values => some (.arr values)

/-- Writing the planned list reaches exactly that list, and writing the old one brings exactly that
back. -/
def Reversible (S : Iproute pre) (table : String) (rows : Rows S) (m : Mutation) : Prop :=
  ∃ rows' rows'', write S table m.intended ⟨rows, []⟩ = (.ok (), ⟨rows', []⟩) ∧
    readRoutes S rows' = .ok m.intended ∧
    write S table m.before ⟨rows', []⟩ = (.ok (), ⟨rows'', []⟩) ∧
    readRoutes S rows'' = .ok m.before

/-- The metrics of a list of routes in a journal. -/
def metrics (value : Option Value) : List (Option Value) :=
  ((value.bind Value.asArray).getD []).map metric

/-- A write that is cut anywhere leaves every metric occupied that was and that will be. -/
def KeepsOccupied (S : Iproute pre) (table : String) (rows : Rows S) (value : Option Value) : Prop :=
  ∀ cuts, ∀ k ∈ (routes rows).map metric, k ∈ metrics value →
    k ∈ (routes (write S table value ⟨rows, cuts⟩).2.world).map metric

theorem readRoutes_eq_ok {rows : Rows S} {l : List Value} :
    readRoutes S rows = .ok (some (.arr l)) ↔ sortByText S (routes rows) = l := by
  rw [readRoutes, routeState_eq]
  simp [Except.map]

/-- What is read, when the routes are those of a sorted list. -/
theorem readRoutes_of_perm {rows : Rows S} {vs l : List Value} (hS : S.Describes table vs)
    (hvs : ∀ v ∈ sortByText S l, v ∈ vs) (h : (routes rows).Perm (sortByText S l)) :
    readRoutes S rows = .ok (some (.arr (sortByText S l))) := by
  refine readRoutes_eq_ok.2 (sortByText_eq_of_perm (fun v hv w hw => ?_)
    (h.trans (sortByText_perm S l)))
  exact hS.text v (hvs v (h.mem_iff.1 hv)) w (hvs w (h.mem_iff.1 hw))

theorem ok_of_spec {α : Type} {x : Io (Rows S) Error α} {rows : Rows S} {Q : α → Rows S → Prop}
    (h : Spec False (· = rows) x Q (fun _ _ => False) fun _ => False) :
    ∃ a rows', x ⟨rows, []⟩ = (.ok a, ⟨rows', []⟩) ∧ Q a rows' := by
  have hrun := h rows [] (.inr rfl) rfl
  rcases hx : x ⟨rows, []⟩ with ⟨a | e | _, ⟨rows', cuts⟩⟩
  · rw [hx] at hrun
    obtain ⟨hcuts, hQ⟩ := hrun
    cases hcuts.resolve_left id
    exact ⟨a, rows', rfl, hQ⟩
  · rw [hx] at hrun
    exact hrun.2.elim
  · rw [hx] at hrun
    exact hrun.1.elim

theorem of_eq_ok {α : Type} {x : Io (Rows S) Error α} {rows : Rows S} {Q : α → Rows S → Prop}
    {E : Error → Rows S → Prop} {C : Rows S → Prop} (h : Spec False (· = rows) x Q E C) {a : α}
    {s : State (Rows S) Error} (hx : x ⟨rows, []⟩ = (.ok a, s)) : Q a s.world := by
  have hQ := h.of_ok (.inr rfl) rfl (congrArg Prod.fst hx)
  rwa [hx] at hQ

/-- The planned list of routes, with what is known of its routes. -/
theorem SlotPlan.mem {rs before intended : List Value} (h : SlotPlan rs before intended) {v : Value}
    (hv : v ∈ intended) : (metric v ∈ rs.map metric ∧ v ∈ rs) ∨
      (metric v ∉ rs.map metric ∧ v ∈ before) := by
  by_cases hk : metric v ∈ rs.map metric
  · obtain ⟨r, hr, hslot⟩ := h.planned _ hk
    have hmem : v ∈ slot metric (metric v) intended := mem_slot.2 ⟨hv, rfl⟩
    rw [hslot] at hmem
    exact .inl ⟨hk, List.mem_singleton.1 hmem ▸ hr⟩
  · exact .inr ⟨hk, (h.mem_iff hk).1 hv⟩

section Runs

variable {rows rows' : Rows S} {rs intended : List Value} {parts : String × String}

/-- The planned list is written without an error. -/
theorem write_intended (hname : routeParts (routeName table pre) = .ok parts)
    (hS : S.Describes table (routes rows ++ rs)) (hplan : SlotPlan rs (routes rows) intended) :
    Spec False (· = rows) (write S table (some (.arr intended)))
      (fun _ w => Written S intended rows w)
      (fun _ _ => ∃ r ∈ rs, ¬ Acceptable S r) fun _ => False := by
  have hmem : ∀ v, v ∈ sortByText S (routes rows) ↔ v ∈ routes rows := fun v =>
    (sortByText_perm S _).mem_iff
  refine (write_spec hname (fun v hv => hS.row v ?_) ?_).mono (fun _ => id) (fun _ _ => id) ?_
    fun _ => id
  · obtain hv | hv := List.mem_append.1 hv
    · obtain ⟨-, hv⟩ | ⟨-, hv⟩ := hplan.mem hv
      · exact List.mem_append_right _ hv
      · exact List.mem_append_left _ hv
    · exact List.mem_append_left _ hv
  · refine nodup_map_filter fun n hn hnew => hplan.single hn fun h => ?_
    exact of_decide_eq_true hnew ((hmem n).2 h)
  · rintro _ _ (⟨v, hv, hnew, hbad⟩ | ⟨v, hv, hmetric, hbad⟩)
    · obtain ⟨-, hv⟩ | ⟨-, hv⟩ := hplan.mem hv
      · exact ⟨v, hv, hbad⟩
      · exact absurd hv hnew
    · -- no metric is given up
      exfalso
      by_cases hk : metric v ∈ rs.map metric
      · obtain ⟨r, -, hslot⟩ := hplan.planned _ hk
        obtain ⟨hr, hkey⟩ := mem_slot.1 (hslot ▸ List.mem_singleton_self r)
        exact hmetric (hkey ▸ List.mem_map_of_mem hr)
      · exact hmetric (List.mem_map_of_mem ((hplan.mem_iff hk).2 hv))

/-- The old list is written back, unless a route cannot be named. -/
theorem write_before (hname : routeParts (routeName table pre) = .ok parts)
    (hS : S.Describes table (routes rows ++ rs)) (hplan : SlotPlan rs (routes rows) intended)
    (hle : ∀ r ∈ rs, (slot metric (metric r) (routes rows)).length ≤ 1)
    (hrows' : (routes rows').Perm intended) :
    Spec False (· = rows') (write S table (some (.arr (sortByText S (routes rows)))))
      (fun _ w => Written S (sortByText S (routes rows)) rows' w)
      (fun _ _ => ∃ r ∈ rs, ¬ Acceptable S r ∨
        ∃ v ∈ slot metric (metric r) (routes rows), ¬ Acceptable S v) fun _ => False := by
  have hmem : ∀ (rows : Rows S) v, v ∈ sortByText S (routes rows) ↔ v ∈ routes rows := fun _ v =>
    (sortByText_perm S _).mem_iff
  have hnew : ∀ v ∈ routes rows, v ∉ routes rows' → metric v ∈ rs.map metric := fun v hv hnew =>
    by_contra fun hk => hnew (hrows'.mem_iff.2 ((hplan.mem_iff hk).2 hv))
  refine (write_spec hname (fun v hv => hS.row v ?_) ?_).mono (fun _ => id) (fun _ _ => id) ?_
    fun _ => id
  · obtain hv | hv := List.mem_append.1 hv
    · exact List.mem_append_left _ ((hmem _ v).1 hv)
    · obtain ⟨-, hv⟩ | ⟨-, hv⟩ := hplan.mem (hrows'.mem_iff.1 hv)
      · exact List.mem_append_right _ hv
      · exact List.mem_append_left _ hv
  · refine nodup_map_filter fun n hn hnot => ?_
    have hn' := (hmem _ n).1 hn
    obtain ⟨r, hr, hkey⟩ := List.mem_map.1 (hnew n hn' fun h =>
      of_decide_eq_true hnot ((hmem _ n).2 h))
    refine slot_eq_singleton ?_ (mem_slot.2 ⟨hn, rfl⟩)
    rw [(slot_perm metric (metric n) (sortByText_perm S _)).length_eq, ← hkey]
    exact hle r hr
  · rintro _ _ (⟨v, hv, hnot, hbad⟩ | ⟨v, hv, hmetric, hbad⟩)
    · have hv := (hmem _ v).1 hv
      obtain ⟨r, hr, hkey⟩ := List.mem_map.1 (hnew v hv hnot)
      exact ⟨r, hr, .inr ⟨v, mem_slot.2 ⟨hv, hkey.symm⟩, hbad⟩⟩
    · obtain ⟨-, hv⟩ | ⟨-, hv⟩ := hplan.mem (hrows'.mem_iff.1 hv)
      · exact ⟨v, hv, .inl hbad⟩
      · exact absurd (List.mem_map_of_mem ((hmem _ v).2 hv)) hmetric

end Runs

/-- **Routes that are written and written back.**  This is exact as long as every slot of a planned
route held at most one route, and one that a command can name.  A metric that is in use before and
after a write is in use at every command of it. -/
theorem write_reversible_iff {rows : Rows S} {device : String} {rs : List Value}
    {plan plan' : List Mutation} {m : Mutation} (hdevice : safeName device = .ok ())
    (hrs : rs ≠ []) (hplanned : ∀ r ∈ rs, PlannedRoute S.ifIndex pre device r)
    (hplan : ∀ m ∈ plan, m.key ≠ routeKey table pre)
    (hadd : rs.foldlM (addRoute S table rows) plan = .ok plan') (hm : m ∈ plan')
    (hkey : m.key = routeKey table pre) (hS : S.Describes table (routes rows ++ rs)) :
    (Reversible S table rows m ↔ ∀ r ∈ rs, (slot metric (metric r) (routes rows)).length ≤ 1 ∧
      ∀ v ∈ slot metric (metric r) (routes rows), Acceptable S v) ∧
    KeepsOccupied S table rows m.intended ∧
    ∀ cuts, KeepsOccupied S table (write S table m.intended ⟨rows, cuts⟩).2.world m.before := by
  obtain ⟨⟨parts, hname⟩, rfl⟩ := foldlM_addRoute hrs hplan hadd hm hkey
  obtain ⟨l, hsorted⟩ := foldl_slotted_sorted (S := S) (l := sortByText S (routes rows)) hrs
  have hplan := planned_foldl_slotted S rs (sortByText_perm S (routes rows))
  have hplan' := planned_foldl_slotted S rs (.refl (sortByText S (routes rows)))
  show (Reversible S table rows (routeMutation S table rows _) ↔ _) ∧ KeepsOccupied S table rows
    (some (.arr _)) ∧ ∀ cuts, KeepsOccupied S table (write S table (some (.arr _)) _).2.world
      (some (.arr _))
  rw [hsorted] at hplan hplan' ⊢
  have hknown : ∀ v ∈ sortByText S l, v ∈ routes rows ++ rs := fun v hv => by
    obtain ⟨-, hv⟩ | ⟨-, hv⟩ := hplan.mem hv
    · exact List.mem_append_right _ hv
    · exact List.mem_append_left _ hv
  have hacceptable : ∀ r ∈ rs, Acceptable S r := fun r hr => (hplanned r hr).acceptable S hdevice
  have hbefore : ∀ v ∈ sortByText S (routes rows), v ∈ routes rows ++ rs := fun v hv =>
    List.mem_append_left _ ((sortByText_perm S _).mem_iff.1 hv)
  have hoccupied : ∀ (target : List Value) (w : Rows S), (∀ v ∈ target, v ∈ routes rows ++ rs) →
      (∀ v ∈ routes w, v ∈ routes rows ++ rs) →
      KeepsOccupied S table w (some (.arr target)) := by
    intro target w htarget hw cuts k hk hk'
    have hkeeps := write_occupied {k} hS htarget fun _ h => h ▸ hk'
    exact (hkeeps.world (.inl True.intro) ⟨hw, fun _ h => h ▸ hk⟩).2 k rfl
  refine ⟨⟨?_, ?_⟩, ?_, ?_⟩
  · rintro ⟨rows', rows'', hthere, hread, hback, -⟩ r hr
    have hwritten := of_eq_ok (write_intended hname hS hplan) hthere
    have hperm : (routes rows').Perm (sortByText S l) := by
      rw [← readRoutes_eq_ok.1 hread]
      exact (sortByText_perm S _).symm
    have hle := (hwritten.intended_iff hplan).1 hperm
    have hwritten' := of_eq_ok (write_before hname hS hplan hle hperm) hback
    refine ⟨hle r hr, fun v hv => ?_⟩
    obtain ⟨hv, hmetric⟩ := mem_slot.1 hv
    by_cases hv' : v ∈ routes rows'
    · -- a planned route that was there before
      obtain ⟨-, hv⟩ | ⟨hk, -⟩ := hplan.mem (hperm.mem_iff.1 hv')
      · exact hacceptable v hv
      · exact absurd (hmetric ▸ List.mem_map_of_mem hr) hk
    · exact hwritten'.acceptable v ((sortByText_perm S _).mem_iff.2 hv) hv'
  · intro hcond
    have hle := fun r hr => (hcond r hr).1
    obtain ⟨⟨⟩, rows', hthere, hwritten⟩ := ok_of_spec ((write_intended hname hS hplan).mono
      (fun _ => id) (fun _ _ => id) (fun _ _ ⟨r, hr, hbad⟩ => hbad (hacceptable r hr)) fun _ => id)
    have hperm := (hwritten.intended_iff hplan).2 hle
    obtain ⟨⟨⟩, rows'', hback, hwritten'⟩ := ok_of_spec ((write_before hname hS hplan hle hperm).mono
      (fun _ => id) (fun _ _ => id) (fun _ _ ⟨r, hr, hbad⟩ => hbad.elim
        (fun hbad => hbad (hacceptable r hr)) fun ⟨v, hv, hbad⟩ => hbad ((hcond r hr).2 v hv))
      fun _ => id)
    refine ⟨rows', rows'', hthere, readRoutes_of_perm hS hknown hperm, hback,
      readRoutes_of_perm hS hbefore (hwritten'.before_perm hplan' hperm fun r hr => ?_)⟩
    rw [(slot_perm metric (metric r) (sortByText_perm S _)).length_eq]
    exact hle r hr
  · exact hoccupied _ _ hknown fun v hv => List.mem_append_left _ hv
  · intro cuts
    refine hoccupied _ _ hbefore ?_
    have hkeeps := write_occupied ∅ hS hknown fun _ h => h.elim
    exact (hkeeps.world (.inl True.intro)
      ⟨fun v hv => List.mem_append_left _ hv, fun _ h => h.elim⟩).1

/-! ### A tunnel beside other interfaces -/

/-- The indices of the example. -/
def exampleIndex (name : String) : ℕ :=
  if name = "eth0" then 1 else if name = "eth1" then 2 else if name = "tun0" then 3 else 0

/-- `to_string` of an object with numbers and plain strings. -/
def exampleText : Value → String
  | .obj fields => "\x7b" ++ ",".intercalate (fields.map fun (k, v) => "\"" ++ k ++ "\":" ++
      match v with
      | .str s => "\"" ++ s ++ "\""
      | .num n => toString n
      | _ => "") ++ "\x7d"
  | _ => ""

/-- The attributes in the arguments of a command. -/
def attributePairs : List String → List (String × Value)
  | "via" :: v :: args => ("gateway", .str v) :: attributePairs args
  | "dev" :: v :: args => ("dev", .str v) :: attributePairs args
  | "src" :: v :: args => ("prefsrc", .str v) :: attributePairs args
  | "proto" :: v :: args => ("protocol", .str v) :: attributePairs args
  | "scope" :: v :: args => ("scope", .str v) :: attributePairs args
  | "metric" :: v :: args =>
    ("metric", .num ((Text.parseUnsigned 32 v).getD 0 : ℕ)) :: attributePairs args
  | "pref" :: v :: args => ("pref", .str v) :: attributePairs args
  | _ => []

/-- What is shown for the route of a command. -/
def shownRoute (pre : String) (args : List String) : Value :=
  .obj (("dst", .str pre) :: ("type", .str (args.getD 3 "")) :: ("flags", .arr []) ::
    attributePairs (args.drop 7))

/-- The row of what is shown, if `canonical_route` accepts it. -/
def rowOf (pre : String) (shown : Value) : Row exampleIndex pre :=
  match h : canonicalRoute exampleIndex pre shown with
  | .ok route => ⟨shown, route, h⟩
  | .error _ => ⟨.obj [], _, rfl⟩

def exampleIproute (pre : String) : Iproute pre where
  ifIndex := exampleIndex
  toText := exampleText
  row args := rowOf pre (shownRoute pre args)
  add row rows := rows ++ [row]
  add_perm row rows := List.perm_append_singleton row rows

/-- A route of the network manager. -/
def lanRow (pre device : String) (metric : ℕ) : Row exampleIndex pre :=
  rowOf pre (.obj [("dst", .str pre), ("dev", .str device), ("protocol", .str "static"),
    ("metric", .num metric), ("flags", .arr [])])

/-- The route into the tunnel. -/
def exampleRoute (pre : String) : Value :=
  ((tunnelRoute exampleIndex pre "tun0").toOption).getD (.obj [])

/-- What `add_route` plans for it. -/
def exampleMutation (pre : String) (rows : Rows (exampleIproute pre)) : Mutation :=
  routeMutation (exampleIproute pre) "main" rows
    (slotted (exampleIproute pre) (exampleRoute pre) (sortByText (exampleIproute pre) (routes rows)))

theorem write_reversible_lan :
    Reversible (exampleIproute "10.0.0.0/8") "main" [lanRow "10.0.0.0/8" "eth0" 0]
      (exampleMutation "10.0.0.0/8" [lanRow "10.0.0.0/8" "eth0" 0]) := by
  let rows : Rows (exampleIproute "10.0.0.0/8") := [lanRow "10.0.0.0/8" "eth0" 0]
  have hrow : ∀ v ∈ routes rows ++ [exampleRoute "10.0.0.0/8"], ∀ action ∈ ["replace", "del"],
      (routeArgs (exampleIproute "10.0.0.0/8") "main" action v).toOption.all
        (fun args => ((exampleIproute "10.0.0.0/8").row args).route = v) = true := by
    decide +kernel
  have hS : (exampleIproute "10.0.0.0/8").Describes "main"
      (routes rows ++ [exampleRoute "10.0.0.0/8"]) := by
    refine ⟨fun v hv action haction args hargs => ?_, by decide +kernel⟩
    have hall := hrow v hv action haction
    rw [hargs] at hall
    exact of_decide_eq_true hall
  have hplanned : tunnelRoute exampleIndex "10.0.0.0/8" "tun0" =
      .ok (exampleRoute "10.0.0.0/8") := by decide +kernel
  have hadd : [exampleRoute "10.0.0.0/8"].foldlM (addRoute (exampleIproute "10.0.0.0/8") "main" rows)
      [] = .ok [exampleMutation "10.0.0.0/8" rows] := by decide +kernel
  have hdevice : safeName "tun0" = .ok () := by decide +kernel
  have hroutes : ∀ r ∈ [exampleRoute "10.0.0.0/8"], PlannedRoute exampleIndex "10.0.0.0/8" "tun0" r :=
    List.forall_mem_singleton.2 (.ofTunnel hplanned)
  have hplan : ∀ m ∈ ([] : List Mutation), m.key ≠ routeKey "main" "10.0.0.0/8" := fun _ hm =>
    absurd hm List.not_mem_nil
  refine (write_reversible_iff hdevice (List.cons_ne_nil _ _) hroutes hplan hadd
    (List.mem_singleton_self _) rfl hS).1.2 ?_
  intro r hr
  obtain rfl := List.mem_singleton.1 hr
  refine ⟨by decide +kernel, fun v hv => ?_⟩
  obtain rfl := List.mem_singleton.1 (mem_slot.1 hv).1
  have hargs : routeArgs (exampleIproute "10.0.0.0/8") "main" "replace"
      (lanRow "10.0.0.0/8" "eth0" 0).route = .ok ["-4", "route", "replace", "unicast", "10.0.0.0/8",
        "table", "main", "dev", "eth0", "proto", "static", "scope", "global", "metric", "0"] := by
    decide +kernel
  exact (routeArgs_ok _ "main").1 ⟨_, hargs⟩

/-- Two interfaces have a route of the metric of the tunnel: one of them stays. -/
theorem write_keeps_second :
    let S := exampleIproute "fd00::/8";
    let rows : Rows S := [lanRow "fd00::/8" "eth0" 1024, lanRow "fd00::/8" "eth1" 1024];
    let m := exampleMutation "fd00::/8" rows;
    tunnelRoute exampleIndex "fd00::/8" "tun0" = .ok (exampleRoute "fd00::/8") ∧
      [exampleRoute "fd00::/8"].foldlM (addRoute S "main" rows) [] = .ok [m] ∧
      m.intended = some (.arr [exampleRoute "fd00::/8"]) ∧
      (write S "main" m.intended ⟨rows, []⟩).1 = .ok () ∧
      routes (write S "main" m.intended ⟨rows, []⟩).2.world =
        [exampleRoute "fd00::/8", (lanRow "fd00::/8" "eth1" 1024).route] ∧
      readRoutes S (write S "main" m.intended ⟨rows, []⟩).2.world ≠ .ok m.intended := by
  decide +kernel

end Ocvpn.Net.Linux
