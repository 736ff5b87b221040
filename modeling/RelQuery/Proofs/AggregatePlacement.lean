import RelQuery.Proofs.Accepting
import RelQuery.Proofs.PlanServing
import RelQuery.Proofs.Planned

namespace RelQuery

open Planning

/-- The parts of a statement from which aggregate calls are collected. -/
def SelectBody.outputs (b : SelectBody) : Outputs := ⟨b.items, b.having, b.orderBy⟩

/-- An aggregate call stands in the predicate or in a key of the grouping, or in the argument of
another call. -/
def SelectBody.Misplaces (b : SelectBody) : Prop :=
  (∃ p, b.filter = some p ∧ p.containsAggregate = true) ∨
    (∃ k ∈ b.groupBy, k.containsAggregate = true) ∨ ∃ e ∈ b.outputs.exprs, e.Nested

def JoinCondition.Misplaces (condition : JoinCondition) : Prop :=
  ∃ p, condition = .on p ∧ p.containsAggregate = true

/-- An aggregate call is misplaced in a condition of a join or in a statement inside a relation. -/
def Source.Misplaces : Source → Prop
  | .single | .table .. => False
  | .derived s b _ => s.Misplaces ∨ b.Misplaces
  | .join l r _ condition => l.Misplaces ∨ r.Misplaces ∨ condition.Misplaces

def Select.Misplaces (q : Select) : Prop := q.source.Misplaces ∨ q.body.Misplaces

namespace Plan

/-- The only aggregate calls of a plan are the entries of its groupings, and their arguments hold
none. -/
structure CallsPlaced (p : Plan) : Prop where
  evaluated : ∀ e ∈ p.evaluated, e.containsAggregate = false
  entries : ∀ e ∈ p.entries, e.isAggregate = true ∧ ∀ a ∈ e.children, a.containsAggregate = false

namespace CallsPlaced

variable {p c l r : Plan} {es : List Expr}

/-- An operator that is no grouping adds expressions without calls to those of its input. -/
theorem onTop (hc : c.CallsPlaced) (hes : ∀ e ∈ es, e.containsAggregate = false)
    (hevaluated : p.evaluated = es ++ c.evaluated) (hentries : p.entries = c.entries) :
    p.CallsPlaced where
  evaluated := by
    rw [hevaluated]
    exact List.forall_mem_append.2 ⟨hes, hc.evaluated⟩
  entries := hentries ▸ hc.entries

theorem filter (hc : c.CallsPlaced) {q : Expr} (hq : q.containsAggregate = false) :
    (Plan.filter q c).CallsPlaced :=
  hc.onTop (List.forall_mem_singleton.2 hq) rfl rfl

theorem project (hc : c.CallsPlaced) {items : List SelectItem}
    (hitems : ∀ e ∈ Outputs.itemExprs items, e.containsAggregate = false) :
    (Plan.project items c).CallsPlaced :=
  hc.onTop hitems rfl rfl

theorem sort (hc : c.CallsPlaced) {keys : List OrderKey}
    (hkeys : ∀ e ∈ keys.map OrderKey.expr, e.containsAggregate = false) :
    (Plan.sort keys c).CallsPlaced :=
  hc.onTop hkeys rfl rfl

theorem rename (hc : c.CallsPlaced) (name : String) : (Plan.rename name c).CallsPlaced :=
  hc.onTop (fun _ he => absurd he List.not_mem_nil) rfl rfl

theorem limit (hc : c.CallsPlaced) (n : Option Nat) (k : Nat) : (Plan.limit n k c).CallsPlaced :=
  hc.onTop (fun _ he => absurd he List.not_mem_nil) rfl rfl

theorem join (hl : l.CallsPlaced) (hr : r.CallsPlaced) {kind : JoinKind} {q : Option Expr}
    {swapped : Bool} (hq : ∀ e, q = some e → e.containsAggregate = false) :
    (Plan.join kind q swapped l r).CallsPlaced where
  evaluated := List.forall_mem_append.2 ⟨List.forall_mem_append.2
    ⟨fun e he => hq e (Option.mem_toList.1 he), hl.evaluated⟩, hr.evaluated⟩
  entries := List.forall_mem_append.2 ⟨hl.entries, hr.entries⟩

theorem group (hc : c.CallsPlaced) {keys : List Expr} {calls : AggregateMap}
    (hkeys : ∀ e ∈ keys, e.containsAggregate = false)
    (hcalls : ∀ e ∈ calls.calls, e.isAggregate = true ∧
      ∀ a ∈ e.children, a.containsAggregate = false) :
    (Plan.group keys calls c).CallsPlaced where
  evaluated := by
    refine List.forall_mem_append.2 ⟨List.forall_mem_append.2 ⟨hkeys, fun a ha => ?_⟩, hc.evaluated⟩
    obtain ⟨e, he, ha⟩ := List.mem_filterMap.1 ha
    refine (hcalls e he).2 a ?_
    cases e with
    | aggregate f d e => exact List.mem_singleton.2 (Option.some.inj ha).symm
    | _ => exact absurd ha (by simp [Expr.aggregateCall?])
  entries := List.forall_mem_append.2 ⟨hcalls, hc.entries⟩

end CallsPlaced

end Plan

/-- A prepared cursor in whose plan the calls are placed. -/
structure Cursor.Placed (config : Config) (c : Cursor) : Prop where
  prepared : Cursor.prepared c.plan config = .ok c
  calls : c.plan.CallsPlaced

namespace Planning

variable {db : Storage} {config : Config} {c c' cl cr : Cursor} {b : SelectBody} {p : Plan}

theorem placed_of_prepared (h : Cursor.prepared p config = .ok c) (hp : p.CallsPlaced) :
    c.Placed config := by
  obtain ⟨s, hs, rfl⟩ := Cursor.prepared_ok h
  exact ⟨h, hp⟩

theorem placed_layer {f : Plan → Plan} (h : layer config c f = .ok c')
    (hf : (f c.plan).CallsPlaced) : c'.Placed config :=
  placed_of_prepared h hf

theorem placed_layerIf {f : Plan → Plan} {wanted : Bool} (hc : c.Placed config)
    (hf : (f c.plan).CallsPlaced) (h : layerIf config c wanted f = .ok c') : c'.Placed config :=
  layerIf_keeps hc (fun _ {_} hlayer => placed_layer hlayer hf) h

theorem placed_filter {q : Option Expr} (hc : c.Placed config)
    (hq : ∀ e, q = some e → e.containsAggregate = false)
    (h : layerSome config c .filter q = .ok c') : c'.Placed config :=
  layerSome_keeps hc (fun a ha {_} hlayer => placed_layer hlayer (hc.calls.filter (hq a ha))) h

theorem optionCheck_eq_ok {clause : String} {q r : Option Expr}
    (h : q.mapM (AggregateCollector.check clause) = .ok r) :
    r = q ∧ ∀ e, q = some e → e.containsAggregate = false := by
  cases q with
  | none =>
    obtain rfl := Except.ok.inj h
    exact ⟨rfl, fun e he => nomatch he⟩
  | some e =>
    rw [Option.mapM_some] at h
    obtain ⟨e', he', rfl⟩ := Except.map_eq_ok.1 h
    obtain ⟨hplain, rfl⟩ := AggregateCollector.check_eq_ok.1 he'
    exact ⟨rfl, fun e he => Option.some.inj he ▸ hplain⟩

/-- A statement that is planned misplaces no call, and neither does its plan. -/
theorem placed_body (hc : c.Placed config) (h : body config c b = .ok c') :
    ¬ b.Misplaces ∧ c'.Placed config := by
  obtain ⟨q, hq, h⟩ := Except.bind_eq_ok.1 h
  obtain ⟨c₁, h₁, h⟩ := Except.bind_eq_ok.1 h
  obtain ⟨keys, hkeys, h⟩ := Except.bind_eq_ok.1 h
  obtain ⟨⟨o, calls⟩, ho, h⟩ := Except.bind_eq_ok.1 h
  obtain ⟨c₂, h₂, h⟩ := Except.bind_eq_ok.1 h
  obtain ⟨c₃, h₃, h⟩ := Except.bind_eq_ok.1 h
  obtain ⟨c₄, h₄, h⟩ := Except.bind_eq_ok.1 h
  obtain ⟨c₅, h₅, h⟩ := Except.bind_eq_ok.1 h
  obtain ⟨c₆, h₆, h₇⟩ := Except.bind_eq_ok.1 h
  obtain ⟨rfl, hfilter⟩ := optionCheck_eq_ok hq
  obtain ⟨checked, hchecked, -⟩ := Except.exists_of_mapM hkeys
  have hgroupBy : ∀ k ∈ b.groupBy, k.containsAggregate = false := fun k hk =>
    (AggregateCollector.check_eq_ok.1 (hchecked k hk)).1
  obtain ⟨hflat, hplain, hcalls⟩ := Outputs.collect_ok ho
  have hentries : ∀ e ∈ calls.calls,
      e.isAggregate = true ∧ ∀ a ∈ e.children, a.containsAggregate = false := by
    intro call hcall
    obtain ⟨e, he, hcall⟩ := hcalls call hcall
    exact ⟨Expr.isAggregate_of_mem_calls hcall, hflat e he call hcall⟩
  -- The outputs hold no calls any more, be they read over groups or not.
  generalize hgrouped : (if (!b.groupBy.isEmpty || !calls.isEmpty) = true then
    o.overGroups b.groupBy else o) = o' at h₃ h₄ h₅ h₆ h₇
  have ho' : ∀ e ∈ o'.exprs, e.containsAggregate = false := by
    subst hgrouped
    split
    · exact Outputs.overGroups_plain b.groupBy hplain
    · exact hplain
  have hitems : ∀ e ∈ Outputs.itemExprs o'.items, e.containsAggregate = false :=
    fun e he => ho' e (Outputs.mem_exprs.2 (.inl he))
  have hhaving : ∀ e, o'.having = some e → e.containsAggregate = false :=
    fun e he => ho' e (Outputs.mem_exprs.2 (.inr (.inl he)))
  have horderBy : ∀ e ∈ o'.orderBy.map OrderKey.expr, e.containsAggregate = false :=
    fun e he => ho' e (Outputs.mem_exprs.2 (.inr (.inr he)))
  constructor
  · rintro (⟨p, hp, hcontains⟩ | ⟨k, hk, hcontains⟩ | ⟨e, he, hnested⟩)
    · exact absurd hcontains (by simp [hfilter p hp])
    · exact absurd hcontains (by simp [hgroupBy k hk])
    · exact (hflat e he).not_nested hnested
  · have hc₁ := placed_filter hc hfilter h₁
    have hc₂ := placed_layerIf hc₁ (hc₁.calls.group hgroupBy hentries) h₂
    have hc₃ := placed_filter hc₂ hhaving h₃
    have hc₄ := placed_layerIf hc₃ (hc₃.calls.sort horderBy) h₄
    have hc₅ := placed_layerIf hc₄ (hc₄.calls.project hitems) h₅
    have hc₆ := placed_layerIf hc₅ (hc₅.calls.sort horderBy) h₆
    exact placed_layerIf hc₆ (hc₆.calls.limit b.limit b.offset) h₇

theorem plain_conjunction {es : List Expr} (hes : ∀ e ∈ es, e.containsAggregate = false) {e : Expr}
    (h : Expr.conjunction? es = some e) : e.containsAggregate = false := by
  unfold Expr.conjunction? at h
  split at h
  · exact absurd h (by simp)
  · obtain rfl := Option.some.inj h
    exact hes _ List.mem_cons_self
  · obtain rfl := Option.some.inj h
    exact Expr.containsAggregate_eq_false.2 ⟨rfl, hes⟩

/-- A condition that is let through misplaces no call, and neither does the predicate that is made
of it. -/
theorem joinTerms_ok {ls rs : Schema} {condition : JoinCondition} {q : Option Expr}
    {shared : List String} (h : joinTerms ls rs condition = .ok (q, shared)) :
    ¬ condition.Misplaces ∧ ∀ e, q = some e → e.containsAggregate = false := by
  have hshared : ∀ {columns : List String}, joinTerms.shared ls rs columns = .ok (q, shared) →
      ∀ e, q = some e → e.containsAggregate = false := by
    intro columns h
    obtain ⟨pairs, -, h⟩ := Except.bind_eq_ok.1 h
    obtain ⟨rfl, -⟩ := Prod.mk.inj (Except.ok.inj h)
    exact fun e => plain_conjunction (List.forall_mem_map.2 fun _ _ => rfl)
  cases condition with
  | none =>
    obtain ⟨rfl, -⟩ := Prod.mk.inj (Except.ok.inj h)
    exact ⟨fun ⟨p, hp, _⟩ => (nomatch hp), fun e he => (nomatch he)⟩
  | on p =>
    obtain ⟨p', hp', h⟩ := Except.bind_eq_ok.1 h
    obtain ⟨rfl, -⟩ := Prod.mk.inj (Except.ok.inj h)
    obtain ⟨hplain, rfl⟩ := AggregateCollector.check_eq_ok.1 hp'
    refine ⟨?_, fun e he => Option.some.inj he ▸ hplain⟩
    rintro ⟨p, hp, hcontains⟩
    exact absurd hcontains (by simp [← JoinCondition.on.inj hp, hplain])
  | _ => exact ⟨fun ⟨p, hp, _⟩ => (nomatch hp), hshared h⟩

theorem plain_ownItems (shared : List String) (s : Schema) :
    ∀ e ∈ Outputs.itemExprs (ownItems shared s), e.containsAggregate = false := by
  intro e he
  obtain ⟨a, he⟩ := Outputs.mem_itemExprs.1 he
  obtain ⟨c, -, he⟩ := List.mem_map.1 he
  obtain ⟨rfl, -⟩ := SelectItem.expr.inj he
  rfl

theorem plain_sharedItems {kind : JoinKind} {ls rs : Schema} {shared : List String}
    {items : List SelectItem} (h : sharedItems kind ls rs shared = .ok items) :
    ∀ e ∈ Outputs.itemExprs items, e.containsAggregate = false := by
  obtain ⟨pairs, -, h⟩ := Except.bind_eq_ok.1 h
  obtain rfl := Except.ok.inj h
  intro e he
  obtain ⟨a, he⟩ := Outputs.mem_itemExprs.1 he
  rcases List.mem_append.1 he with he | he
  · rcases List.mem_append.1 he with he | he
    · rw [← List.map_uncurry_zip_eq_zipWith] at he
      obtain ⟨⟨column, pair⟩, -, he⟩ := List.mem_map.1 he
      cases kind <;>
      · obtain ⟨rfl, -⟩ := SelectItem.expr.inj he
        rfl
    · exact plain_ownItems shared ls e (Outputs.mem_itemExprs.2 ⟨a, he⟩)
  · split at he
    · exact absurd he List.not_mem_nil
    · exact plain_ownItems shared rs e (Outputs.mem_itemExprs.2 ⟨a, he⟩)

theorem placed_join {kind : JoinKind} {condition : JoinCondition} (hl : cl.Placed config)
    (hr : cr.Placed config) (h : join config cl cr kind condition = .ok c) :
    ¬ condition.Misplaces ∧ c.Placed config := by
  obtain ⟨⟨q, shared⟩, hterms, h⟩ := Except.bind_eq_ok.1 h
  obtain ⟨cj, hj, h⟩ := Except.bind_eq_ok.1 h
  obtain ⟨hcondition, hq⟩ := joinTerms_ok hterms
  have hcj : cj.Placed config := by
    refine placed_of_prepared hj ?_
    unfold joinPlan
    split
    · exact hr.calls.join hl.calls hq
    · exact hl.calls.join hr.calls hq
  refine ⟨hcondition, ?_⟩
  split at h
  · obtain rfl := Except.ok.inj h
    exact hcj
  · obtain ⟨items, hitems, h⟩ := Except.bind_eq_ok.1 h
    exact placed_layer h (hcj.calls.project (plain_sharedItems hitems))

theorem placed_scan {table : String} (h : scan db config table none = .ok c) : c.Placed config := by
  obtain ⟨q, info, hq, -, h⟩ := scan_ok h
  obtain rfl := Except.ok.inj hq
  exact placed_of_prepared h
    ⟨fun e he => absurd he List.not_mem_nil, fun e he => absurd he List.not_mem_nil⟩

/-- A relation that is planned misplaces no call, and neither does its plan. -/
theorem placed_source {s : Source} (h : source db config s = .ok c) :
    ¬ s.Misplaces ∧ c.Placed config := by
  induction s generalizing c with
  | single =>
    refine ⟨id, placed_of_prepared h ⟨fun e he => ?_, fun e he => ?_⟩⟩
    · exact absurd he List.not_mem_nil
    · exact absurd he List.not_mem_nil
  | table t name =>
    obtain ⟨c₁, h₁, h⟩ := Except.bind_eq_ok.1 h
    have hc₁ := placed_scan h₁
    refine ⟨id, ?_⟩
    cases name with
    | none =>
      obtain rfl := Except.ok.inj h
      exact hc₁
    | some a =>
      dsimp only at h
      split at h
      · obtain rfl := Except.ok.inj h
        exact hc₁
      · exact placed_layer h (hc₁.calls.rename a)
  | derived s b name ih =>
    obtain ⟨c₁, h₁, h⟩ := Except.bind_eq_ok.1 h
    obtain ⟨c₂, h₂, h⟩ := Except.bind_eq_ok.1 h
    obtain ⟨hs, hc₁⟩ := ih h₁
    obtain ⟨hb, hc₂⟩ := placed_body hc₁ h₂
    exact ⟨not_or.2 ⟨hs, hb⟩, placed_layer h (hc₂.calls.rename name)⟩
  | join l r kind condition ihl ihr =>
    obtain ⟨cl, hl, h⟩ := Except.bind_eq_ok.1 h
    obtain ⟨cr, hr, h⟩ := Except.bind_eq_ok.1 h
    obtain ⟨hnl, hcl⟩ := ihl hl
    obtain ⟨hnr, hcr⟩ := ihr hr
    obtain ⟨hcondition, hc⟩ := placed_join hcl hcr h
    exact ⟨not_or.2 ⟨hnl, not_or.2 ⟨hnr, hcondition⟩⟩, hc⟩

end Planning

/-- The expressions of a plan whose calls are placed do not fail for a call. -/
theorem Plan.CallsPlaced.serves {D : Storage → Prop} {p : Plan} (hp : p.CallsPlaced)
    {config : Config}
    {s : p.operator.State} (h : p.operator.prepare config p.operator.start = (.ok (), s)) :
    p.operator.Serves D (fun _ => True) (fun e => ∀ a, e ≠ .ungrouped a) s := by
  have heval : ∀ e ∈ p.evaluated,
      e.FailsWithin (fun _ _ => True) fun e => ∀ a, e ≠ .ungrouped a := by
    intro e he
    have hplain : e.containsAggregate = true → ∀ a b, EvalError.ungrouped a ≠ .ungrouped b :=
      fun hcontains => absurd hcontains (by simp [hp.evaluated e he])
    exact ⟨fun _ => e.eval_meets (Environment.permits_grouped _) hplain,
      fun _ _ => e.eval_meets (Environment.permits_grouped _) hplain⟩
  rw [← p.prepareWith_uniform] at h
  exact (p.served rowKinds_any (Environment.permits_grouped ⟨[]⟩).values
    (fun _ _ {_ _ _ _} _ _ => trivial) heval p.kept_start h).serves

namespace Select

/-- A statement with a misplaced call is not planned. In the plan of any other statement, the only
aggregate calls are the entries of its groupings, and no call on it, whatever becomes of the
storage, fails for an aggregate call outside of a grouping. -/
theorem plan_places_calls (db : Storage) (config : Config) (enclosing : List Select) (q : Select) :
    (q.Misplaces → ∃ e, q.plan db config enclosing = .error e) ∧
      ∀ c, q.plan db config enclosing = .ok c → c.plan.CallsPlaced ∧
        ∀ s, c.plan.operator.ReachesOver (fun _ => True) c.state s → ∀ db call e,
          (c.plan.operator.call db call s).1 ≠ .error (.evaluation (.ungrouped e)) := by
  have hplanned : ∀ c, q.plan db config enclosing = .ok c → ¬ q.Misplaces ∧ c.Placed config := by
    intro c h
    obtain ⟨c₁, h₁, h⟩ := Planning.plan_ok h
    obtain ⟨hsource, hc₁⟩ := placed_source h₁
    obtain ⟨hbody, hc⟩ := placed_body hc₁ h
    exact ⟨not_or.2 ⟨hsource, hbody⟩, hc⟩
  constructor
  · intro hmisplaces
    cases h : q.plan db config enclosing with
    | error e => exact ⟨e, rfl⟩
    | ok c => exact absurd hmisplaces (hplanned c h).1
  · rintro ⟨p, k, s₀⟩ h
    obtain ⟨-, hprepared, hcalls⟩ := hplanned _ h
    obtain ⟨s, hs, heq⟩ := Cursor.prepared_ok hprepared
    cases heq
    refine ⟨hcalls, fun s' hrun db call e he => ?_⟩
    have hcall : Within (fun _ => True) _ (p.operator.call db call s').1 :=
      ((hcalls.serves hs).reaches hrun).call p.calm trivial call
    rw [show (p.operator.call db call s').1 = _ from he] at hcall
    exact hcall e rfl

/-- Rows are counted in a condition of a join, inside a derived relation. -/
def countedJoin : Select :=
  ⟨.derived (.join (constants "a" [("k", 1)]) (constants "b" [("y", 2)]) .inner
      (.on (.compare .eq (.aggregateAll .count false) (.literal (.int 1)))))
    ⟨[.wildcard none], none, [], none, [], none, 0⟩ "c",
    [.wildcard none], none, [], none, [], none, 0⟩

/-- Calls stand in a select list, after `HAVING`, and in a sort key. -/
def summedGroups : Select :=
  let total := Expr.aggregate .sum false
    (.arith .add (.column (.unqualified "x")) (.literal (.int 1)))
  ⟨constants "a" [("k", 1), ("x", 10)], [.expr (.column (.unqualified "k")) none, .expr total none],
    none, [.column (.unqualified "k")],
    some (.compare .eq (.aggregateAll .count false) (.literal (.int 1))),
    [⟨.negate total, true⟩], none, 0⟩

theorem plan_places_calls_sums :
    (countedJoin.Misplaces ∧ ∃ e, countedJoin.plan (.create 1) .default [] = .error e) ∧
      ∃ c s, summedGroups.plan (.create 1) .default [] = .ok c ∧ c.plan.entries.length = 2 ∧
        c.plan.operator.ReachesOver (fun _ => True) c.state s ∧ c.plan.CallsPlaced ∧
          ∀ db call e,
            (c.plan.operator.call db call s).1 ≠ .error (.evaluation (.ungrouped e)) := by
  have hmisplaces : countedJoin.Misplaces := .inl (.inl (.inr (.inr ⟨_, rfl, rfl⟩)))
  obtain ⟨c, hc⟩ : ∃ c, summedGroups.plan (.create 1) .default [] = .ok c := ⟨_, rfl⟩
  have hentries : c.plan.entries.length = 2 := by
    obtain rfl := Except.ok.inj hc
    rfl
  have hrun : c.plan.operator.ReachesOver (fun _ => True) c.state
      (c.plan.operator.next (.create 1) (c.plan.operator.rewind c.state).2).2 :=
    .trans (.of_reaches trivial (.rewind rfl (.inl rfl) :
      c.plan.operator.Reaches (.create 1) .any _ _))
      (.of_reaches trivial (.next rfl (.inl rfl) : c.plan.operator.Reaches (.create 1) .any _ _))
  obtain ⟨hplaced, hcalls⟩ := (plan_places_calls (.create 1) .default [] summedGroups).2 c hc
  exact ⟨⟨hmisplaces, (plan_places_calls (.create 1) .default [] countedJoin).1 hmisplaces⟩,
    c, _, hc, hentries, hrun, hplaced, hcalls _ hrun⟩

end Select

end RelQuery
