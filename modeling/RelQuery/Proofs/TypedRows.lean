import RelQuery.Proofs.Accumulating
import RelQuery.Proofs.Alignment
import RelQuery.Proofs.Shapes

namespace RelQuery

variable {c : Operator} {D : Storage → Prop} {T T' : Row → Prop} {G : EvalError → Prop}

theorem Operator.evalRow_gives {s : Schema} {e : Expr} {r : Row} (hr : s.Holds r)
    (he : e.Coherent s r) : Within (e.sqlType s).Holds (fun _ => True) (evalRow s e r) :=
  (Expr.eval_gives hr e he).mapError fun _ _ => trivial

namespace Schema

variable {s t : Schema} {x y : Row}

theorem Holds.getD {i : Nat} {info : Column} (h : s.Holds x) (hi : s.columns[i]? = some info) :
    info.type.Holds ((x[i]?).getD .null) := by
  obtain ⟨hlt, rfl⟩ := List.getElem?_eq_some_iff.1 hi
  have hlt' : i < x.length := h.length_eq ▸ hlt
  rw [List.getElem?_eq_getElem hlt']
  exact h.get hlt hlt'

theorem Holds.concat (hx : s.Holds x) (hy : t.Holds y) : (s.concat t).Holds (x ++ y) :=
  List.rel_append hx hy

theorem holds_nulls (s : Schema) : s.Holds (Tuple.nulls s.width) := by
  refine List.forall₂_iff_get.2 ⟨by simp [Tuple.nulls, Schema.width], fun i hi hi' => ?_⟩
  rw [List.get_eq_getElem, List.get_eq_getElem]
  simp only [Tuple.nulls, List.getElem_replicate]
  exact SqlType.holds_null

theorem Holds.exchange (h : (s.concat t).Holds x) :
    (t.concat s).Holds (Join.exchange s.width x) := by
  have hleft : s.Holds (x.take s.width) := by
    have htake := List.forall₂_take s.width h
    rwa [Schema.concat, Schema.width, List.take_left] at htake
  have hright : t.Holds (x.drop s.width) := by
    have hdrop := List.forall₂_drop s.width h
    rwa [Schema.concat, Schema.width, List.drop_left] at hdrop
  exact hright.concat hleft

theorem holds_rename {table : String} : (s.rename table).Holds x ↔ s.Holds x :=
  List.forall₂_map_left_iff

end Schema

namespace Project

variable {s : Schema} {r : Row} {items : List SelectItem}

theorem copies_give (hr : s.Holds r) {p : Column → Bool} :
    ∀ o ∈ copies s p, Within o.2.type.Holds G (outputValue s r o.1) := by
  intro o ho
  obtain ⟨⟨info, i⟩, hmem, rfl⟩ := List.mem_map.1 ho
  have hi := List.mem_zipIdx_iff_getElem?.1 (List.mem_filter.1 hmem).1
  exact hr.getD hi

/-- The columns of an item are declared to be of the types of their values. -/
theorem resolveItem_gives (hr : s.Holds r) {item : SelectItem} {os : List (Output × Column)}
    (hitem : ∀ e ∈ Planning.Outputs.itemExprs [item], e.Coherent s r)
    (h : resolveItem s item = .ok os) :
    ∀ o ∈ os, Within o.2.type.Holds (fun _ => True) (outputValue s r o.1) := by
  cases item with
  | wildcard t =>
    cases t with
    | none =>
      obtain rfl := Except.ok.inj h
      exact copies_give hr
    | some t =>
      rw [resolveItem] at h
      split at h
      · simp at h
      · obtain rfl := Except.ok.inj h
        exact copies_give hr
  | expr e name =>
    rw [resolveItem] at h
    split at h
    · obtain rfl := Except.ok.inj h
      exact List.forall_mem_singleton.2 (Operator.evalRow_gives hr (hitem e List.mem_cons_self))
    · next column hcolumn =>
      split at h
      · simp at h
      · next info i hresolve =>
        have hvalue := hr.getD (Schema.resolve_eq_ok_iff.1 hresolve).1
        have htype : e.sqlType s = info.type := by
          rw [Expr.column?_eq_some.1 hcolumn, Expr.sqlType, hresolve]
        split at h
        · obtain rfl := Except.ok.inj h
          exact List.forall_mem_singleton.2 hvalue
        · obtain rfl := Except.ok.inj h
          exact List.forall_mem_singleton.2 (htype ▸ hvalue)

theorem resolveItems_give (hr : s.Holds r) {os : List (Output × Column)}
    (hitems : ∀ e ∈ Planning.Outputs.itemExprs items, e.Coherent s r)
    (h : resolveItems s items = .ok os) :
    ∀ o ∈ os, Within o.2.type.Holds (fun _ => True) (outputValue s r o.1) := by
  induction items generalizing os with
  | nil =>
    obtain rfl := Except.ok.inj h
    exact fun o ho => absurd ho List.not_mem_nil
  | cons item items ih =>
    obtain ⟨cs, hcs, h⟩ := Except.bind_eq_ok.1 h
    obtain ⟨ds, hds, h⟩ := Except.bind_eq_ok.1 h
    obtain rfl := Except.ok.inj h
    have hsplit : ∀ e, e ∈ Planning.Outputs.itemExprs [item] ∨
        e ∈ Planning.Outputs.itemExprs items → e ∈ Planning.Outputs.itemExprs (item :: items) := by
      cases item <;> simp [Planning.Outputs.itemExprs]
    exact List.forall_mem_append.2
      ⟨resolveItem_gives hr (fun e he => hitems e (hsplit e (.inl he))) hcs,
        ih (fun e he => hitems e (hsplit e (.inr he))) hds⟩

/-- A projection makes rows of its schema of rows on which its items are coherent. -/
theorem outputRow_gives (hr : s.Holds r) {os : List (Output × Column)}
    (hitems : ∀ e ∈ Planning.Outputs.itemExprs items, e.Coherent s r)
    (h : resolveItems s items = .ok os) :
    Within (Schema.Holds ⟨os.map Prod.snd⟩) (fun _ => True)
      (outputRow s (os.map Prod.fst) r) := by
  refine Except.meets_mapM_of_forall₂ ?_
  rw [List.forall₂_map_left_iff, List.forall₂_map_right_iff, List.forall₂_same]
  exact resolveItems_give hr hitems h

end Project

/-- The type that the results of a call are declared to have. -/
def AggregateCall.type (s : Schema) (call : AggregateCall) : SqlType :=
  match call.fn, call.arg with
  | .count, _ => .bigInt
  | .avg, _ => .double
  | .sum, some e => if (e.sqlType s).isInteger then .bigInt else .double
  | .sum, none => .double
  | .min, some e | .max, some e => e.sqlType s
  | .min, none | .max, none => .integer

theorem Expr.sqlType_eq {s : Schema} {e : Expr} {call : AggregateCall}
    (h : e.aggregateCall? = some call) : e.sqlType s = call.type s := by
  cases e with
  | aggregate f d x =>
    obtain rfl := Option.some.inj h
    cases f <;> rfl
  | aggregateAll f d =>
    obtain rfl := Option.some.inj h
    cases f <;> rfl
  | _ => simp [aggregateCall?] at h

namespace Accumulator

variable {s : Schema} {r : Row} {e : Expr} {a : Accumulator} {v w : Value} {t : SqlType}

/-- What an accumulator keeps is of the type of its call. -/
structure Typed (s : Schema) (a : Accumulator) : Prop where
  total : a.call.fn = .sum → ∀ v, a.total = some v → (a.call.type s).Holds v
  extreme : a.call.fn = .min ∨ a.call.fn = .max → ∀ v, a.extreme = some v → (a.call.type s).Holds v

theorem typed_start (call : AggregateCall) : (start call).Typed s :=
  ⟨fun _ _ hv => (nomatch hv), fun _ _ hv => (nomatch hv)⟩

theorem addTo_gives (f : AggregateFunction) (hv : t.Holds v) (hw : t.Holds w) :
    Gives t (addTo f v w) := by
  unfold addTo
  split
  · next a b =>
    have hgives := Value.checked_gives (hv _ rfl).symm (a.toInt + b.toInt)
    unfold Value.checked at hgives
    split
    · next hsum => rwa [hsum] at hgives
    · trivial
  · next hints =>
    split
    · next hx hy =>
      have hdouble : t.shape = .double := by
        cases v <;> cases w <;> simp [Value.toDouble?] at hx hy hints
        · exact (hw _ rfl).symm
        · exact (hv _ rfl).symm
        · exact (hv _ rfl).symm
      exact (SqlType.holds_of_shape rfl).2 hdouble.symm
    · trivial

theorem holds_sum (hnumber : v.isNumeric = true) (hv : t.Holds v) :
    (if t.isInteger then SqlType.bigInt else .double).Holds v := by
  have hinteger := SqlType.isInteger_iff (t := t)
  cases v <;> simp [Value.isNumeric] at hnumber
  · rw [if_pos (hinteger.2 (hv _ rfl).symm)]
    exact (SqlType.holds_of_shape rfl).2 rfl
  · rw [if_neg fun h => absurd ((hv _ rfl).trans (hinteger.1 h)) (by decide)]
    exact (SqlType.holds_of_shape rfl).2 rfl

theorem typed_of_fn (h : a.call.fn = .count ∨ a.call.fn = .avg) : a.Typed s := by
  constructor
  · intro hfn
    rcases h with h | h <;> simp [h] at hfn
  · intro hfn
    rcases h with h | h <;> simp [h] at hfn

theorem add_typed (ha : a.Typed s) (harg : a.call.arg = some e) (hv : (e.sqlType s).Holds v) :
    Except.Meets (fun b => b.call = a.call ∧ b.Typed s) (fun _ => True) (a.add v) := by
  have hcall := add_meets (G := fun _ => True) (fun _ _ => trivial) a v
  cases hfn : a.call.fn with
  | count => exact hcall.imp (fun b hb => ⟨hb, typed_of_fn (.inl (hb ▸ hfn))⟩) fun _ h => h
  | avg => exact hcall.imp (fun b hb => ⟨hb, typed_of_fn (.inr (hb ▸ hfn))⟩) fun _ h => h
  | sum =>
    cases hnumber : v.isNumeric with
    | false =>
      have hfails : a.add v = .error (.notSummable .sum v.typeName) := by
        simp [add, hfn, summand, hnumber, bind, Except.bind]
      rw [hfails]
      trivial
    | true =>
      have htype : (a.call.type s).Holds v := by
        simp only [AggregateCall.type, hfn, harg]
        exact holds_sum hnumber hv
      rw [AggregateCall.add_of_sum (.inl hfn) hnumber]
      refine Except.Meets.map (R := (a.call.type s).Holds) ?_ fun t ht => ⟨rfl, ?_, ?_⟩
      · cases htotal : a.total with
        | none => exact htype
        | some t => exact addTo_gives _ (ha.total hfn t htotal) htype
      · intro _ w hw
        exact Option.some.inj hw ▸ ht
      · intro hextreme
        simp [hfn] at hextreme
  | min | max =>
    have hextreme : a.call.fn = .min ∨ a.call.fn = .max := by simp [hfn]
    have htype : (a.call.type s).Holds v := by
      simp only [AggregateCall.type, hfn, harg]
      exact hv
    rw [AggregateCall.add_of_extreme hextreme]
    refine ⟨rfl, fun hsum => ?_, fun _ w hw => ?_⟩
    · simp [hfn] at hsum
    · dsimp only at hw
      split at hw
      · exact Option.some.inj hw ▸ htype
      · exact ha.extreme hextreme w hw

theorem take_typed (ha : a.Typed s) (harg : a.call.arg = some e) (hv : (e.sqlType s).Holds v) :
    Except.Meets (fun b => b.call = a.call ∧ b.Typed s) (fun _ => True) (a.take v) := by
  unfold take
  split
  · exact ⟨rfl, ha⟩
  · split
    · split
      · exact ⟨rfl, ha⟩
      · exact add_typed (a := { a with seen := _ }) ⟨ha.total, ha.extreme⟩ harg hv
    · exact add_typed ha harg hv

/-- An accumulator stays of the type of its call, if the argument is coherent on the rows. -/
theorem update_typed (hr : s.Holds r) (ha : a.Typed s)
    (harg : ∀ e, a.call.arg = some e → e.Coherent s r) :
    Except.Meets (fun b => b.call = a.call ∧ b.Typed s) (fun _ => True)
      (a.update (.single s r)) := by
  unfold update
  split
  · exact ⟨rfl, ha.total, ha.extreme⟩
  · next e he => exact (Expr.eval_gives hr e (harg e he)).bind fun v hv => take_typed ha he hv

theorem finish_holds (ha : a.Typed s) : (a.call.type s).Holds a.finish := by
  unfold finish
  cases hfn : a.call.fn with
  | count =>
    simp only [AggregateCall.type, hfn]
    exact (SqlType.holds_of_shape rfl).2 rfl
  | avg =>
    simp only [AggregateCall.type, hfn]
    split
    · split
      · exact (SqlType.holds_of_shape rfl).2 rfl
      · exact SqlType.holds_null
    · exact SqlType.holds_null
  | sum =>
    cases htotal : a.total with
    | none => exact SqlType.holds_null
    | some t => exact ha.total hfn t htotal
  | min | max =>
    cases hextreme : a.extreme with
    | none => exact SqlType.holds_null
    | some v => exact ha.extreme (by simp [hfn]) v hextreme

end Accumulator

namespace Schema

theorem holds_of_types {s t : Schema} {es : List Expr} {r : Row}
    (h : t.columns.map Column.type = es.map (·.sqlType s)) :
    t.Holds r ↔ List.Forall₂ (fun e v => (e.sqlType s).Holds v) es r := by
  have hcolumns : t.Holds r ↔ List.Forall₂ SqlType.Holds (t.columns.map Column.type) r :=
    List.forall₂_map_left_iff.symm
  rw [hcolumns, h, List.forall₂_map_left_iff]

end Schema

namespace Group

variable {s : Schema} {groupBy calls : List Expr}

/-- A grouping makes rows of values of the types of its keys and calls, as far as keys and arguments
are coherent on the rows of its input. -/
theorem loads_typed {db : Storage} {tr : Trace} (htr : tr.Good T fun _ => True)
    (hT : ∀ r, T r → s.Holds r) (hkeys : ∀ r, T r → ∀ e ∈ groupBy, e.Coherent s r)
    (hargs : ∀ r, T r → ∀ e ∈ calls, ∀ call, e.aggregateCall? = some call → ∀ a,
      call.arg = some a → a.Coherent s r) :
    Within (fun rows => ∀ t ∈ rows,
      List.Forall₂ (fun e v => (e.sqlType s).Holds v) (groupBy ++ calls) t.values) (fun _ => True)
      ((Group.loads groupBy calls c db).rows s tr) := by
  refine loads_keep (K := fun keys => List.Forall₂ (fun e v => (e.sqlType s).Holds v) groupBy keys)
    (A := fun e a => e.aggregateCall? = some a.call ∧ a.Typed s)
    (fun e _ call hcall => ⟨hcall, Accumulator.typed_start call⟩) htr (fun r hr => ?keys)
    (fun r hr e he a ha => ?calls) (fun hnil => hnil ▸ .nil) fun keys as hkeys has => ?row
  case keys =>
    refine Except.meets_mapM_of_forall₂ (List.forall₂_same.2 fun e he => ?_)
    exact Operator.evalRow_gives (hT r hr) (hkeys r hr e he)
  case calls =>
    have hupdate := Accumulator.update_typed (hT r hr) ha.2 (hargs r hr e he a.call ha.1)
    exact hupdate.imp (fun b hb => ⟨hb.1 ▸ ha.1, hb.2⟩) fun _ h => h
  case row =>
    refine List.rel_append hkeys (List.forall₂_map_right_iff.2 (has.imp fun e a ha => ?_))
    exact Expr.sqlType_eq ha.1 ▸ Accumulator.finish_holds ha.2

theorem serves_typed {T' : Row → Prop} {aggregates : AggregateMap} (s₀ : Buffered c.State)
    (hset : ∀ db, c.Settled db) (hc : c.Serves D T (fun _ => True) s₀.child)
    (hT : ∀ r, T r → (c.status s₀.child).schema.Holds r)
    (hown : ∀ r, T r → ∀ e ∈ groupBy ++ aggregates.arguments,
      e.Coherent (c.status s₀.child).schema r)
    (hT' : ∀ r, List.Forall₂ (fun e v => (e.sqlType (c.status s₀.child).schema).Holds v)
      (groupBy ++ aggregates.calls) r → T' r) (hrows : ∀ t ∈ s₀.rows, T' t.values) :
    (Operator.group groupBy aggregates c).Serves D T' (fun _ => True) s₀ ∧
      ∀ {s}, (Operator.group groupBy aggregates c).ReachesOver D s₀ s →
        ∀ t ∈ Buffered.rows s, T' t.values := by
  have hargs : ∀ x, T x → ∀ e ∈ aggregates.calls, ∀ call, e.aggregateCall? = some call → ∀ a,
      call.arg = some a → a.Coherent (c.status s₀.child).schema x := by
    intro x hx e he call hcall a ha
    refine hown x hx a (List.mem_append_right _ (List.mem_filterMap.2 ⟨e, he, ?_⟩))
    rw [hcall]
    exact ha
  exact Buffered.serves (fun db => Group.loads groupBy aggregates.calls c db) hset hc
    (fun {_ _} _ htr => Within.mono (loads_typed htr hT
      (fun x hx e he => hown x hx e (List.mem_append_left _ he)) hargs)
      (fun rows h t ht => hT' _ (h t ht)) fun _ h => h) hrows

end Group

namespace Join

variable {kind : JoinKind} {ls rs : Schema}

theorem makes_holds (kind : JoinKind) (ls rs : Schema) :
    Makes kind ls.width rs.width ls.Holds rs.Holds (resultSchema kind false ls rs).Holds := by
  cases kind with
  | semi | anti =>
    exact ⟨fun h => (nomatch h), fun _ _ hx => hx, fun h => (nomatch h), fun h => (nomatch h)⟩
  | _ =>
    exact ⟨fun _ _ _ => .concat, fun h => (nomatch h), fun _ _ hx => hx.concat rs.holds_nulls,
      fun _ _ hy => ls.holds_nulls.concat hy⟩

/-- The rows of a join that is swapped are of the columns in the other order. -/
theorem dress_holds {swapped : Bool} (hkind : checkKind kind swapped = .ok ()) {x : Row}
    (hx : (resultSchema kind false ls rs).Holds x) :
    (resultSchema kind swapped ls rs).Holds (dress swapped ls.width x) := by
  cases swapped with
  | false => exact hx
  | true =>
    have hleft : kind.leftColumnsOnly = false := by
      by_contra h
      exact absurd (eq_false_of_checkKind hkind (by simpa using h)) (by decide)
    simp only [resultSchema, hleft] at hx ⊢
    exact hx.exchange

end Join

namespace Operator

variable {o : Operator} {s : o.State}

/-- On all rows that an operator gives from a state on, some expressions are coherent. -/
def CoherentFrom (o : Operator) (D : Storage → Prop) (s : o.State) (es : List Expr) : Prop :=
  ∀ s', o.ReachesOver D s s' → ∀ db, D db → ∀ t s'', o.next db s' = (.ok (some t), s'') →
    ∀ e ∈ es, e.Coherent (o.status s).schema t.values

theorem CoherentFrom.serves {es : List Expr} (h : o.CoherentFrom D s es) :
    o.Serves D (fun r => ∀ e ∈ es, e.Coherent (o.status s).schema r) (fun _ => True) s := by
  refine Serves.of_next (o.ReachesOver D s) (fun {db _ _} hdb hs hstep => ?_)
    (fun {db s' r s''} hdb hs hnext => ?_) .refl
  · exact hs.trans (.of_reaches hdb (.single hstep))
  · rcases r with e | u
    · exact e.allowed_any
    · rintro t rfl
      exact h s' hs db hdb t s'' hnext

end Operator

namespace Tree

/-- What an operator lists or computes for its rows agrees with its schema: the rows that it lists
are of its columns, and what it computes is coherent on all rows that its input gives. -/
def Coherent (D : Storage → Prop) : Tree → Prop
  | ⟨.values schema rows, _, _⟩ => ∀ r ∈ rows, schema.Holds r
  | ⟨.project items c, _, s⟩ =>
    c.operator.CoherentFrom D (Wrapped.child s) (Planning.Outputs.itemExprs items)
  | ⟨.group keys calls c, _, s⟩ => c.operator.CoherentFrom D (Buffered.child s)
    (keys ++ calls.calls.filterMap fun e => e.aggregateCall?.bind AggregateCall.arg)
  | _ => True

/-- All rows that an operator gives, from a state on, are of its columns. -/
def Typed (D : Storage → Prop) (t : Tree) : Prop :=
  ∀ t', t.Runs D t' → ∀ db, D db → ∀ u t'', t'.next db = (.ok (some u), t'') →
    t.cursor.schema.Holds u.values

end Tree

/-- A prepared plan serves rows of its columns, as far as stored rows are of theirs and its
operators are coherent. -/
theorem Plan.served_typed (p : Plan)
    (hread : ∀ t ∈ p.scanned, ∀ {db page slot x}, D db → db.readFrom t.name page slot = some x →
      t.schema.Holds x.values) {k : p.Settings} {s s' : p.operator.State}
    (hs : p.Kept Schema.Holds s) (hprep : p.prepareWith k s = (.ok (), s'))
    (hcoherent : ∀ n ∈ Tree.nodesOf p k s', n.Coherent D) :
    p.Served D Schema.Holds (fun _ => True) s' := by
  induction p with
  | scan t q =>
    obtain ⟨r, hr, rfl⟩ := Leaf.prepare_eq_ok.1 hprep
    obtain rfl := Except.ok.inj hr
    exact ⟨Scan.serves (hread t List.mem_cons_self) fun _ _ => within_any, fun _ => trivial⟩
  | values schema rows =>
    obtain ⟨r, hr, rfl⟩ := Leaf.prepare_eq_ok.1 hprep
    have hrows := List.forall_mem_singleton.1 hcoherent
    exact ⟨Values.serves fun x hx => (Values.profile_ok hr).1.symm ▸ hrows x hx, fun _ => trivial⟩
  | filter q c ih =>
    obtain ⟨d, r, u, hd, hr, rfl⟩ := Wrapped.prepare_eq_ok.1 hprep
    obtain ⟨rfl, rfl⟩ := Prod.mk.inj (Except.ok.inj hr)
    have hchild := ih hread hs hd (List.forall_mem_cons.1 hcoherent).2
    exact ⟨Filter.serves (fun db => (c.regular db).settled) hchild.serves fun _ _ => within_any,
      fun h => hchild.keeps (reaches_filter h)⟩
  | project items c ih =>
    obtain ⟨d, r, u, hd, hr, rfl⟩ := Wrapped.prepare_eq_ok.1 hprep
    obtain ⟨os, hos, rfl, rfl⟩ := Project.settle_ok hr
    obtain ⟨hroot, hbelow⟩ := List.forall_mem_cons.1 hcoherent
    have hroot : c.operator.CoherentFrom D d (Planning.Outputs.itemExprs items) := hroot
    have hchild := ih hread hs hd hbelow
    exact ⟨Project.serves (fun db => (c.regular db).settled) (hchild.serves.and hroot.serves)
      fun x hx => Project.outputRow_gives hx.1 hx.2 hos, fun h => hchild.keeps (reaches_project h)⟩
  | rename t c ih =>
    obtain ⟨d, r, u, hd, hr, rfl⟩ := Wrapped.prepare_eq_ok.1 hprep
    obtain ⟨rfl, rfl⟩ := Prod.mk.inj (Except.ok.inj hr)
    have hchild := ih hread hs hd (List.forall_mem_cons.1 hcoherent).2
    have hrename : ((c.operator.status d).schema.rename t).Holds =
        (c.operator.status d).schema.Holds :=
      funext fun _ => propext Schema.holds_rename
    exact ⟨hrename ▸ Rename.serves (fun db => (c.regular db).settled) hchild.serves,
      fun h => hchild.keeps (reaches_rename h)⟩
  | barrier c ih =>
    obtain ⟨d, r, u, hd, hr, rfl⟩ := Wrapped.prepare_eq_ok.1 hprep
    obtain ⟨rfl, rfl⟩ := Prod.mk.inj (Except.ok.inj hr)
    have hchild := ih hread hs hd (List.forall_mem_cons.1 hcoherent).2
    exact ⟨Barrier.serves (fun db => (c.regular db).settled) hchild.serves,
      fun h => hchild.keeps (reaches_barrier h)⟩
  | sort keys c ih =>
    obtain ⟨d, r, hd, hr, rfl⟩ := Buffered.prepare_eq_ok.1 hprep
    have hchild := ih hread hs.2 hd (List.forall_mem_cons.1 hcoherent).2
    exact served_sort s hchild (c.schema_of_prepare hd) hr (fun _ _ _ _ => Except.meets_any _) hs.1
  | group keys calls c ih =>
    obtain ⟨d, r, hd, hr, rfl⟩ := Buffered.prepare_eq_ok.1 hprep
    obtain ⟨hroot, hbelow⟩ := List.forall_mem_cons.1 hcoherent
    have hroot : c.operator.CoherentFrom D d
      (keys ++ calls.calls.filterMap fun e => e.aggregateCall?.bind AggregateCall.arg) := hroot
    have hchild := ih hread hs.2 hd hbelow
    have hschema : r.schema = Group.resultSchema keys calls c.schema :=
      (group keys calls c).schema_of_prepare hprep
    let s' : Buffered c.operator.State :=
      ⟨(Buffered.status s).settle r, s.rows, s.loaded, s.position, s.mark, d⟩
    obtain ⟨hserves, hrows⟩ := Group.serves_typed s' (fun db => (c.regular db).settled)
      (hchild.serves.and hroot.serves) (fun x hx => hx.1) (fun x hx => hx.2)
      (fun x hx => (Schema.holds_of_types (Group.types_of_profile hr)).2 hx) (hschema ▸ hs.1)
    exact ⟨hserves, fun h => ⟨hschema ▸ hrows h, hchild.keeps (reaches_group h)⟩⟩
  | limit n k c ih =>
    obtain ⟨d, hd, rfl⟩ := Limit.prepare_eq_ok.1 hprep
    have hchild := ih hread hs hd (List.forall_mem_cons.1 hcoherent).2
    exact ⟨Limit.serves hchild.serves, fun h => hchild.keeps (reaches_limit h)⟩
  | join kind q swapped l r ihl ihr =>
    obtain ⟨a, b, x, ha, hb, hkind, hx, rfl⟩ := Join.prepare_eq_ok.1 hprep
    obtain ⟨hkeeps, hsl, hsr⟩ := hs
    obtain ⟨hreadl, hreadr⟩ := List.forall_mem_append.1 hread
    obtain ⟨hl, hr⟩ := List.forall_mem_append.1 (List.forall_mem_cons.1 hcoherent).2
    have hleft := ihl hreadl hsl ha hl
    have hright := ihr hreadr hsr hb hr
    exact served_join s hleft hright (l.schema_of_prepare ha) (Join.makes_holds kind _ _)
      (fun _ _ _ _ => within_any)
      (fun y hy => Join.schema_of_profile hx ▸ Join.dress_holds hkind hy) hkeeps

namespace Tree

variable {t t' : Tree}

theorem Running.served_typed (h : t.Running D (Kept Schema.Holds) (Coherent D)) :
    t.plan.Served D Schema.Holds (fun _ => True) t.state := by
  obtain ⟨k, s, s₀, hs, hprep, hcoherent, hreach⟩ := h.prepared
  have hread : ∀ info ∈ t.plan.scanned, ∀ {db page slot x}, D db →
      db.readFrom info.name page slot = some x → info.schema.Holds x.values :=
    fun info hinfo {_ _ _ _} hdb hx =>
      ((h.opened info hinfo hdb).readFrom Table.fits_of_coerceRow hx).holds
  exact (t.plan.served_typed hread hs hprep hcoherent).reaches hreach

theorem Running.typed (h : t.Running D (Kept Schema.Holds) (Coherent D)) : t.Typed D := by
  rintro _ ⟨a, hrun, rfl⟩ db hdb u _ hnext
  have hgiven : (t.plan.operator.next db a).1 = .ok (some u) := congrArg Prod.fst hnext
  exact (h.served_typed.serves.reaches hrun).next_some hdb (Prod.ext hgiven rfl)

/-- On rows of a schema, an expression and all its parts have values of the types they are declared
to have just if no `COALESCE` in it picks an argument that is declared to be of another shape than
its first. So a tree that is prepared gives rows of its columns, and so do all operators in it, as
far as what its projections and groupings compute is coherent: whatever calls are made on it, over
whatever becomes of a storage in which its tables were opened. All this needs of the tree before is
that the rows it holds, if any, are of their columns, and it is so again afterwards. -/
theorem sound_iff_and_typed {s : Schema} {r : Row} (hr : s.Holds r) (e : Expr) :
    (e.Sound s r ↔ e.Coherent s r) ∧
      (∀ p : Plan, p.Kept Schema.Holds p.operator.start) ∧
      ∀ {t t' t'' : Tree}, t.plan.Kept Schema.Holds t.state → t.prepare = (.ok (), t') →
        (∀ n ∈ t'.nodes, n.Coherent t.OpenedIn) → t'.Runs t.OpenedIn t'' →
          (∀ n ∈ t''.nodes, n.Typed t.OpenedIn) ∧ t''.plan.Kept Schema.Holds t''.state := by
  refine ⟨Expr.sound_iff_coherent hr, Plan.kept_start,
    fun {t t' t''} hkept hprep hcoherent hrun => ?_⟩
  have hruns := (Running.of_prepare (K := Kept Schema.Holds) hkept hprep hcoherent).of_runs hrun
  exact ⟨fun n hn => (hruns.nodes Kept.inputs n hn).typed, hruns.served_typed.keeps .refl⟩

/-- The column of the table, with zero in place of NULL, in order. -/
def defaulted : Tree :=
  sort [⟨.column (.unqualified "b"), true⟩]
    (project [.expr (.call .coalesce [.column (.unqualified "a"), .literal (.int 0)]) (some "b")]
      (scan opened none))

/-- A row without a value is inserted between two calls, and the tree is prepared again with a
buffer of rows. A `COALESCE` of NULL and a truth value has no value of its type, as NULL is declared
to be an integer. -/
theorem sound_iff_and_typed_defaulted :
    (∃ t₀ t₁ t₂ t₃ : Tree, defaulted.OpenedIn beforeInsert ∧
      defaulted.plan.Kept Schema.Holds defaulted.state ∧ defaulted.prepare = (.ok (), t₀) ∧
      (∀ n ∈ t₀.nodes, n.Coherent defaulted.OpenedIn) ∧ t₀.Runs defaulted.OpenedIn t₁ ∧
      t₁.prepare = (.ok (), t₂) ∧ (∀ n ∈ t₂.nodes, n.Coherent t₁.OpenedIn) ∧
      t₂.Runs t₁.OpenedIn t₃ ∧ ∀ n ∈ t₃.nodes, n.Typed t₁.OpenedIn) ∧
    Schema.Holds ⟨[]⟩ [] ∧
      ¬(Expr.call .coalesce [.literal .null, .literal (.bool true)]).Sound ⟨[]⟩ [] := by
  refine ⟨?run, .nil, fun hsound => ?truth⟩
  case run =>
    have hopened : ∀ {t : Tree}, t.plan = defaulted.plan → ∀ cs,
        t.OpenedIn (beforeInsert.changes cs).2 := fun ht => openedIn_beforeInsert (ht ▸ rfl)
    have hitem : ∀ r, (Expr.call .coalesce [.column (.unqualified "a"), .literal (.int 0)]).Coherent
        ⟨[⟨"a", some "t", .integer⟩]⟩ r := by
      refine Expr.coherent_of_shapes fun a as hcall => ?_
      cases hcall with
      | self => exact List.forall_mem_singleton.2 rfl
      | part hmem hcall =>
        obtain rfl | hmem := List.mem_cons.1 hmem
        · nomatch hcall
        · obtain rfl := List.mem_singleton.1 hmem
          nomatch hcall
    have hcoherent : ∀ {D k s t}, (⟨defaulted.plan, k, s⟩ : Tree).prepare = (.ok (), t) →
        ∀ n ∈ t.nodes, n.Coherent D := by
      intro D k s t hprep
      obtain ⟨-, rfl⟩ := Prod.mk.inj hprep
      refine List.forall_mem_cons.2 ⟨trivial,
        List.forall_mem_cons.2 ⟨?_, List.forall_mem_singleton.2 trivial⟩⟩
      intro s _ db _ t _ _ e he
      obtain rfl := List.mem_singleton.1 he
      exact hitem t.values
    have hkept := defaulted.plan.kept_start (T := Schema.Holds)
    obtain ⟨s₀, hprep₀⟩ : ∃ s₀, defaulted.prepare = (.ok (), { defaulted with state := s₀ }) :=
      ⟨_, rfl⟩
    have hrun₁ := runs_beforeInsert (hopened (t := defaulted) rfl)
      { defaulted with state := s₀ } .null
    obtain ⟨s₁, -, hs₁⟩ := id hrun₁
    rw [hs₁] at hrun₁
    obtain ⟨-, hkept₁⟩ :=
      (sound_iff_and_typed .nil (.literal .null)).2.2 hkept hprep₀ (hcoherent hprep₀) hrun₁
    obtain ⟨t₂, hprep₂⟩ : ∃ t₂, ({ defaulted with state := s₁ } : Tree).prepare = (.ok (), t₂) :=
      ⟨_, rfl⟩
    have hrun₃ := runs_beforeInsert (hopened (t := { defaulted with state := s₁ }) rfl) t₂ .null
    exact ⟨_, _, t₂, _, hopened rfl [], hkept, hprep₀, hcoherent hprep₀, hrun₁, hprep₂,
      hcoherent hprep₂, hrun₃, ((sound_iff_and_typed .nil (.literal .null)).2.2 hkept₁ hprep₂
        (hcoherent hprep₂) hrun₃).1⟩
  case truth =>
    have hcoherent := (sound_iff_and_typed .nil _).1.1 hsound
    exact absurd (hcoherent _ _ (.self _) _ (.later rfl (.here rfl rfl rfl))) (by decide)

end Tree

end RelQuery
