import RelQuery.Proofs.Collecting
import RelQuery.Proofs.Computations
import RelQuery.Query.Planning

namespace RelQuery

namespace AggregateCollector

theorem replaceAll_plain {es : List Expr} (h : ∀ e ∈ es, e.containsAggregate = false)
    (c : AggregateCollector) :
    ∃ c', c.replaceAll es = .ok (es, c') ∧ c'.collected = c.collected := by
  induction es generalizing c with
  | nil => exact ⟨c, rfl, rfl⟩
  | cons e es ih =>
    have hreplace : c.replace e = (.ok e, { c with depth := 0 }) := by
      rw [replace, traverse_plain (h e List.mem_cons_self)]
      rfl
    obtain ⟨c', hc', hcollected⟩ := ih (fun f hf => h f (List.mem_cons_of_mem e hf))
      { c with depth := 0 }
    refine ⟨c', ?_, hcollected⟩
    rw [replaceAll, hreplace]
    simp only [bind, Except.bind, hc']

end AggregateCollector

namespace Planning.Outputs

variable {items : List SelectItem} {having : Option Expr} {orderBy : List OrderKey}

theorem setItems_itemExprs (items : List SelectItem) :
    setItems items (itemExprs items) = items := by
  induction items with
  | nil => rfl
  | cons item items ih =>
    cases item with
    | wildcard t =>
      rw [itemExprs]
      cases hexprs : itemExprs items with
      | nil => rw [setItems, ← hexprs, ih]; simp
      | cons e es => rw [setItems, ← hexprs, ih]; simp
    | expr e a => rw [itemExprs, setItems, ih]

theorem mem_itemExprs {e : Expr} : e ∈ itemExprs items ↔ ∃ a, .expr e a ∈ items := by
  induction items with
  | nil => simp [itemExprs]
  | cons item items ih =>
    cases item with
    | wildcard t => simp [itemExprs, ih]
    | expr e' a' => simp [itemExprs, ih, exists_or]

/-- Where there is no aggregate call, the outputs are taken as they are. -/
theorem collect_plain (hitems : ∀ e ∈ itemExprs items, e.containsAggregate = false)
    (hhaving : ∀ p, having = some p → p.containsAggregate = false)
    (horderBy : ∀ k ∈ orderBy, k.expr.containsAggregate = false) :
    collect ⟨items, having, orderBy⟩ = .ok (⟨items, having, orderBy⟩, []) := by
  obtain ⟨c₁, hc₁, hcollected₁⟩ := AggregateCollector.replaceAll_plain hitems .empty
  have hhaving : ∀ p ∈ having.toList, p.containsAggregate = false := fun p hp =>
    hhaving p (Option.mem_toList.1 hp)
  have horderBy : ∀ e ∈ orderBy.map OrderKey.expr, e.containsAggregate = false :=
    List.forall_mem_map.2 horderBy
  obtain ⟨c₂, hc₂, hcollected₂⟩ := AggregateCollector.replaceAll_plain hhaving c₁
  obtain ⟨c₃, hc₃, hcollected₃⟩ := AggregateCollector.replaceAll_plain horderBy c₂
  have hkeys : List.zipWith (fun (k : OrderKey) e => { k with expr := e }) orderBy
      (orderBy.map OrderKey.expr) = orderBy := by
    rw [List.zipWith_map_right, List.zipWith_self]
    exact List.map_id orderBy
  have hhead : having.toList.head? = having := by cases having <;> rfl
  have hnone : c₃.collected = [] := hcollected₃.trans (hcollected₂.trans hcollected₁)
  simp only [collect, hc₁, hc₂, hc₃, bind, Except.bind, setItems_itemExprs, hkeys, hhead, hnone]

end Planning.Outputs

/-- No part of a statement holds an aggregate call. -/
structure SelectBody.AggregateFree (b : SelectBody) : Prop where
  items : ∀ e a, .expr e a ∈ b.items → e.containsAggregate = false
  filter : ∀ p, b.filter = some p → p.containsAggregate = false
  having : ∀ p, b.having = some p → p.containsAggregate = false
  orderBy : ∀ k ∈ b.orderBy, k.expr.containsAggregate = false

namespace Planning

variable {config : Config} {c : Cursor} {b : SelectBody}

theorem mapM_check_plain (clause : String) {es : List Expr}
    (h : ∀ e ∈ es, e.containsAggregate = false) :
    es.mapM (AggregateCollector.check clause) = .ok es := by
  have hchecks : es.mapM (AggregateCollector.check clause) = .ok (es.map id) :=
    Except.mapM_ok fun e he => AggregateCollector.check_plain (h e he)
  rwa [List.map_id] at hchecks

theorem body_plain (hfree : b.AggregateFree)
    (hkeys : ∀ k ∈ b.groupBy, k.containsAggregate = false) : body config c b = (do
    let c ← layerSome config c .filter b.filter
    let c ← layerIf config c (!b.groupBy.isEmpty) (.group b.groupBy [])
    let outputs : Outputs := ⟨b.items, b.having, b.orderBy⟩
    let outputs := if !b.groupBy.isEmpty then outputs.overGroups b.groupBy else outputs
    let c ← layerSome config c .filter outputs.having
    let first := sortsFirst outputs.orderBy b.items c.schema
    let c ← layerIf config c first (.sort outputs.orderBy)
    let c ← layerIf config c (!b.isTrivial) (.project outputs.items)
    let c ← layerIf config c (!outputs.orderBy.isEmpty && !first) (.sort outputs.orderBy)
    layerIf config c (b.limit.isSome || 0 < b.offset) (.limit b.limit b.offset)) := by
  have hfilter : b.filter.mapM (AggregateCollector.check whereClause) = .ok b.filter := by
    cases hp : b.filter with
    | none => rfl
    | some p =>
      have hcheck : AggregateCollector.check whereClause p = .ok p :=
        AggregateCollector.check_plain (hfree.filter p hp)
      rw [Option.mapM_some, hcheck]
      rfl
  have hitems : ∀ e ∈ Outputs.itemExprs b.items, e.containsAggregate = false := by
    intro e he
    obtain ⟨a, hitem⟩ := Outputs.mem_itemExprs.1 he
    exact hfree.items e a hitem
  have hcollect := Outputs.collect_plain hitems hfree.having hfree.orderBy
  have hgroup := mapM_check_plain groupByClause hkeys
  rw [body, hfilter, hgroup, hcollect]
  cases b.groupBy <;> rfl

end Planning

end RelQuery
