import RelQuery.Proofs.KeptRows
import RelQuery.Query.Planning

namespace RelQuery

variable {c left right : Operator} {D : Storage → Prop} {T : Nat → Row → Prop}
  {G : EvalError → Prop}

/-- A kind of rows for each width, with all rows of the width, and with what operators make of rows
when they put them side by side. -/
structure RowKinds (T : Nat → Row → Prop) : Prop where
  of_length : ∀ r : Row, T r.length r
  append : ∀ {m n x y}, T m x → T n y → T (m + n) (x ++ y)
  exchange : ∀ {m n x}, T (m + n) x → T (n + m) (Join.exchange m x)

theorem rowKinds_length : RowKinds fun n r => r.length = n where
  of_length _ := rfl
  append hx hy := by rw [List.length_append, hx, hy]
  exchange hx := by
    simp only [Join.exchange, List.length_append, List.length_drop, List.length_take, hx]
    omega

theorem rowKinds_any : RowKinds fun _ _ => True := ⟨fun _ => trivial, fun _ _ => trivial, id⟩

/-- On rows of the kinds, an expression has a value or fails with an error of a kind. -/
structure Expr.FailsWithin (T : Nat → Row → Prop) (G : EvalError → Prop) (e : Expr) : Prop where
  single : ∀ {s r}, T s.width r → Except.Meets (fun _ => True) G (e.eval (.single s r))
  pair : ∀ {s r s' r'}, T s.width r → T s'.width r' →
    Except.Meets (fun _ => True) G (e.eval (.pair s r s' r'))

section Calm

theorem Status.check_within (s : Status) (kind : OperatorKind) :
    Within (fun _ => True) (fun _ => False) (s.check kind) := by
  unfold Status.check
  split <;> trivial

theorem Leaf.calm {κ : Type} {kind : OperatorKind} {label : String}
    {profile : Config → Except QueryError Profile} {source : Leaf.Source κ} :
    (Operator.leaf kind label profile source).Calm where
  rewind s := by
    have hcheck := Status.check_within (Leaf.status s) kind
    change Within _ _ (Leaf.rewind kind source.first s).1
    unfold Leaf.rewind
    split
    · next h => rwa [h] at hcheck
    · trivial
  mark _ := trivial
  reset s := by
    change Within _ _ (Leaf.reset kind s).1
    unfold Leaf.reset
    split <;> trivial

theorem Wrapped.calm {κ : Type} {kind : OperatorKind} {label : String} {marks : Bool}
    {refusal : StateError} {orderedBy : List OrderKey} {body : Wrapped.Body κ c} (hc : c.Calm) :
    (Operator.wrapped kind label marks refusal orderedBy c body).Calm := by
  have hmarking : ∀ {f : c.State → Outcome Unit c.State} {s : Wrapped κ c.State},
      (∀ d, Within (fun _ => True) (fun _ => False) (f d).1) →
      Within (fun _ => True) (fun _ => False) (Wrapped.marking refusal marks f s).1 := by
    intro f s hf
    unfold Wrapped.marking
    split
    · exact hf _
    · trivial
  refine ⟨fun s => ?_, fun s => hmarking hc.mark, fun s => hmarking hc.reset⟩
  have hcheck := Status.check_within (Wrapped.status s) kind
  change Within _ _ (Wrapped.rewind kind c.rewind s).1
  unfold Wrapped.rewind
  split
  · next h => rwa [h] at hcheck
  · exact hc.rewind _

theorem Buffered.calm {kind : OperatorKind} {orderedBy : List OrderKey} {label : String}
    {profile : Config → Status → Except QueryError Profile} {loader : Loader c} (hc : c.Calm) :
    (Operator.buffered kind orderedBy label c profile loader).Calm where
  rewind s := by
    have hcheck := Status.check_within (Buffered.status s) kind
    change Within _ _ (Buffered.rewind kind c.rewind s).1
    unfold Buffered.rewind
    split
    · next h => rwa [h] at hcheck
    · exact hc.rewind _
  mark _ := trivial
  reset s := by
    change Within _ _ (Buffered.reset kind s).1
    unfold Buffered.reset
    split <;> trivial

theorem Limit.calm {limit : Option Nat} {offset : Nat} (hc : c.Calm) :
    (Operator.limit limit offset c).Calm where
  rewind s := by
    have hcheck := Status.check_within (State.status s) .limit
    change Within _ _ (Limit.rewind c.rewind s).1
    unfold Limit.rewind
    split
    · next h => rwa [h] at hcheck
    · exact hc.rewind _
  mark s := by
    have hmark := hc.mark (State.child s)
    change Within _ _ (Limit.setMark c.marks c.mark s).1
    unfold Limit.setMark
    split
    · split
      · next h => rwa [h] at hmark
      · trivial
    · trivial
  reset s := by
    have hreset := hc.reset (State.child s)
    change Within _ _ (Limit.reset c.marks c.reset s).1
    unfold Limit.reset
    split
    · split
      · trivial
      · split
        · next h => rwa [h] at hreset
        · trivial
    · trivial

namespace Join

theorem both_within {f : left.State → Outcome Unit left.State}
    {g : right.State → Outcome Unit right.State} (s : State left.State right.State)
    (hf : ∀ l, Within (fun _ => True) (fun _ => False) (f l).1)
    (hg : ∀ r, Within (fun _ => True) (fun _ => False) (g r).1) :
    Within (fun _ => True) (fun _ => False) (both f g s).1 := by
  have hleft := hf s.left
  unfold both
  split
  · next h => rwa [h] at hleft
  · exact hg _

theorem calm {kind : JoinKind} {predicate : Option Expr} {swapped : Bool} (hl : left.Calm)
    (hr : right.Calm) : (Operator.join kind predicate swapped left right).Calm where
  rewind s := by
    have hcheck := Status.check_within (State.status s) .join
    have hboth := both_within { s with status := (State.status s).restart } hl.rewind hr.rewind
    change Within _ _ (rewind left.rewind right.rewind s).1
    unfold rewind
    split
    · next h => rwa [h] at hcheck
    · split
      · next h => rwa [h] at hboth
      · trivial
  mark s := by
    have hboth := both_within s hl.mark hr.mark
    change Within _ _ (setMark (left.marks && right.marks) left.mark right.mark s).1
    unfold setMark
    split
    · split
      · next h => rwa [h] at hboth
      · trivial
    · trivial
  reset s := by
    have hboth := both_within s hl.reset hr.reset
    change Within _ _ (reset (left.marks && right.marks) left.reset right.reset s).1
    unfold reset
    split
    · split
      · trivial
      · split
        · next h => rwa [h] at hboth
        · trivial
    · trivial

end Join

theorem Plan.calm (p : Plan) : p.operator.Calm := by
  induction p with
  | scan | values => exact Leaf.calm
  | filter _ _ ih | project _ _ ih | rename _ _ ih | barrier _ ih => exact Wrapped.calm ih
  | sort _ _ ih | group _ _ _ ih => exact Buffered.calm ih
  | limit _ _ _ ih => exact Limit.calm ih
  | join _ _ _ _ _ ihl ihr => exact Join.calm ihl ihr

end Calm

namespace Plan

def scanned : Plan → List TableInfo
  | scan t _ => [t]
  | values .. => []
  | filter _ c | project _ c | rename _ c | sort _ c | limit _ _ c | group _ _ c | barrier c =>
    c.scanned
  | join _ _ _ l r => l.scanned ++ r.scanned

/-- The expressions that the operators of a plan evaluate on rows: of an aggregate call, these are
its arguments. -/
def evaluated : Plan → List Expr
  | scan _ q => q.toList
  | values .. => []
  | filter q c => q :: c.evaluated
  | project items c => Planning.Outputs.itemExprs items ++ c.evaluated
  | rename _ c | limit _ _ c | barrier c => c.evaluated
  | sort keys c => keys.map OrderKey.expr ++ c.evaluated
  | group keys calls c =>
    keys ++ calls.calls.filterMap (fun e => e.aggregateCall?.bind AggregateCall.arg) ++ c.evaluated
  | join _ q _ l r => q.toList ++ l.evaluated ++ r.evaluated

/-- The entries of the aggregate maps of a plan. -/
def entries : Plan → List Expr
  | scan .. | values .. => []
  | filter _ c | project _ c | rename _ c | sort _ c | limit _ _ c | barrier c => c.entries
  | group _ calls c => calls.calls ++ c.entries
  | join _ _ _ l r => l.entries ++ r.entries

end Plan

namespace Join

variable {kind : JoinKind}

/-- The number of columns that a join makes of those of its inputs. -/
def resultWidth (kind : JoinKind) (leftWidth rightWidth : Nat) : Nat :=
  if kind.leftColumnsOnly then leftWidth else leftWidth + rightWidth

theorem makes (hT : RowKinds T) (kind : JoinKind) (leftWidth rightWidth : Nat) :
    Makes kind leftWidth rightWidth (T leftWidth) (T rightWidth)
      (T (resultWidth kind leftWidth rightWidth)) := by
  have hnulls : ∀ n, T n (Tuple.nulls n) := fun n => by
    have hT := hT.of_length (Tuple.nulls n)
    rwa [Tuple.nulls, List.length_replicate] at hT
  cases kind with
  | semi | anti =>
    exact ⟨fun h => (nomatch h), fun _ _ hx => hx, fun h => (nomatch h), fun h => (nomatch h)⟩
  | _ =>
    exact ⟨fun _ _ _ => hT.append, fun h => (nomatch h), fun _ _ hx => hT.append hx (hnulls _),
      fun _ _ hy => hT.append (hnulls _) hy⟩

theorem eq_false_of_checkKind {swapped : Bool} (h : checkKind kind swapped = .ok ())
    (hleft : kind.leftColumnsOnly = true) : swapped = false := by
  cases swapped with
  | false => rfl
  | true =>
    unfold checkKind at h
    split at h <;> simp [hleft] at h

/-- A row of a join is of the kind for its columns, in whichever order they come. -/
theorem dress_kind (hT : RowKinds T) {swapped : Bool} {config : Config} {predicate : Option Expr}
    {ls rs : Status} {q : Profile} (hkind : checkKind kind swapped = .ok ())
    (hq : profile config kind predicate swapped ls rs = .ok q) {x : Row}
    (hx : T (resultWidth kind ls.schema.width rs.schema.width) x) :
    T q.schema.width (dress swapped ls.schema.width x) := by
  rw [schema_of_profile hq, resultSchema]
  unfold resultWidth at hx
  cases hleft : kind.leftColumnsOnly with
  | true =>
    obtain rfl := eq_false_of_checkKind hkind hleft
    simpa [hleft, dress] using hx
  | false =>
    rw [hleft] at hx
    have hconcat : ∀ s s' : Schema, (s.concat s').width = s.width + s'.width :=
      fun _ _ => List.length_append
    cases swapped with
    | false => simpa [dress, hconcat] using hx
    | true => simpa [dress, hconcat] using hT.exchange hx

theorem matches_within (hG : ∀ e : EvalError, e.ofValues = true → G e) {predicate : Option Expr}
    (hpredicate : ∀ e ∈ predicate.toList, e.FailsWithin T G) {ls rs : Schema} {t u : Tuple}
    (ht : T ls.width t.values) (hu : T rs.width u.values) :
    Within (fun _ => True) G (matches? predicate ls rs t u) := by
  cases predicate with
  | none => trivial
  | some q =>
    have hholds := Expr.holds_meets hG ((hpredicate q List.mem_cons_self).pair ht hu)
    exact hholds.mapError fun _ he => he

end Join

namespace Project

variable {s : Schema} {items : List SelectItem} {o : Output}

/-- An output copies a column of the input or computes an expression of the items. -/
def Output.Of (s : Schema) (items : List SelectItem) : Output → Prop
  | .column i => i < s.width
  | .computed e => e ∈ Planning.Outputs.itemExprs items

theorem copies_of {p : Column → Bool} (h : o ∈ (copies s p).map Prod.fst) : o.Of s items := by
  obtain ⟨x, hx, rfl⟩ := List.mem_map.1 h
  obtain ⟨⟨c, i⟩, hc, rfl⟩ := List.mem_map.1 hx
  obtain ⟨hi, -⟩ := List.getElem?_eq_some_iff.1
    (List.mem_zipIdx_iff_getElem?.1 (List.mem_filter.1 hc).1)
  exact hi

theorem resolveItem_of {item : SelectItem} {os : List (Output × Column)}
    (h : resolveItem s item = .ok os) (ho : o ∈ os.map Prod.fst) : o.Of s [item] := by
  cases item with
  | wildcard t =>
    cases t with
    | none =>
      obtain rfl := Except.ok.inj h
      exact copies_of ho
    | some t =>
      rw [resolveItem] at h
      split at h
      · simp at h
      · obtain rfl := Except.ok.inj h
        exact copies_of ho
  | expr e a =>
    rw [resolveItem] at h
    split at h
    · obtain rfl := Except.ok.inj h
      obtain rfl := List.mem_singleton.1 ho
      exact List.mem_singleton.2 rfl
    · split at h
      · simp at h
      · next info i hresolve =>
        obtain ⟨hi, -⟩ := List.getElem?_eq_some_iff.1 (Schema.resolve_eq_ok_iff.1 hresolve).1
        split at h <;>
        · obtain rfl := Except.ok.inj h
          obtain rfl := List.mem_singleton.1 ho
          exact hi

theorem Output.Of.mono {items' : List SelectItem} (h : o.Of s items)
    (hsub : ∀ e ∈ Planning.Outputs.itemExprs items, e ∈ Planning.Outputs.itemExprs items') :
    o.Of s items' := by
  cases o with
  | column i => exact h
  | computed e => exact hsub e h

theorem resolveItems_of {os : List (Output × Column)} (h : resolveItems s items = .ok os)
    (ho : o ∈ os.map Prod.fst) : o.Of s items := by
  induction items generalizing os with
  | nil =>
    obtain rfl := Except.ok.inj h
    exact absurd ho List.not_mem_nil
  | cons item items ih =>
    obtain ⟨cs, hitem, h⟩ := Except.bind_eq_ok.1 h
    obtain ⟨ds, hitems, h⟩ := Except.bind_eq_ok.1 h
    obtain rfl := Except.ok.inj h
    rw [List.map_append, List.mem_append] at ho
    rcases ho with ho | ho
    · refine (resolveItem_of hitem ho).mono fun e he => ?_
      cases item with
      | wildcard => exact absurd he List.not_mem_nil
      | expr e' a =>
        obtain rfl := List.mem_singleton.1 he
        exact List.mem_cons_self
    · refine (ih hitems ho).mono fun e he => ?_
      cases item with
      | wildcard => exact he
      | expr e' a => exact List.mem_cons_of_mem e' he

/-- A projection makes rows of as many values as it has columns, of rows of its input's kind. -/
theorem outputRow_within (hT : RowKinds T)
    (hitems : ∀ e ∈ Planning.Outputs.itemExprs items, e.FailsWithin T G)
    {os : List (Output × Column)} (h : resolveItems s items = .ok os) {x : Row}
    (hx : T s.width x) :
    Within (T (Schema.width ⟨os.map Prod.snd⟩)) G (outputRow s (os.map Prod.fst) x) := by
  have hrow : Within (fun y : Row => y.length = (os.map Prod.fst).length ∧ ∀ v ∈ y, True) G
      (outputRow s (os.map Prod.fst) x) := by
    refine Except.meets_mapM fun o ho => ?_
    cases o with
    | column i => trivial
    | computed e => exact Operator.evalRow_within ((hitems e (resolveItems_of h ho)).single hx)
  refine hrow.mono (fun y hy => ?_) fun _ he => he
  have hlength : y.length = Schema.width ⟨os.map Prod.snd⟩ := by
    rw [hy.1, List.length_map, Schema.width, List.length_map]
  exact hlength ▸ hT.of_length y

end Project

namespace Plan

/-- The preparation of a plan checks that all entries of aggregate maps are aggregate calls. -/
theorem isAggregate_of_prepare (p : Plan) {k : p.Settings} {s s' : p.operator.State}
    (h : p.prepareWith k s = (.ok (), s')) : ∀ e ∈ p.entries, e.isAggregate = true := by
  induction p with
  | scan | values => exact fun _ he => absurd he List.not_mem_nil
  | filter _ c ih | project _ c ih | rename _ c ih | barrier c ih =>
    obtain ⟨d, q, u, hd, -, rfl⟩ := Wrapped.prepare_eq_ok.1 h
    exact ih hd
  | sort _ c ih =>
    obtain ⟨d, q, hd, -, rfl⟩ := Buffered.prepare_eq_ok.1 h
    exact ih hd
  | group keys calls c ih =>
    obtain ⟨d, q, hd, hq, rfl⟩ := Buffered.prepare_eq_ok.1 h
    exact List.forall_mem_append.2 ⟨Group.isAggregate_of_profile hq, ih hd⟩
  | limit _ _ c ih =>
    obtain ⟨d, hd, rfl⟩ := Limit.prepare_eq_ok.1 h
    exact ih hd
  | join _ _ _ l r ihl ihr =>
    obtain ⟨a, b, q, ha, hb, -, -, rfl⟩ := Join.prepare_eq_ok.1 h
    exact List.forall_mem_append.2 ⟨ihl ha, ihr hb⟩

section Reaches

variable {q : Expr} {items : List SelectItem} {table : String} {keys : List OrderKey}
  {n : Option Nat}
  {m : Nat} {groupBy : List Expr} {calls : AggregateMap} {kind : JoinKind} {predicate : Option Expr}
  {swapped : Bool} {c l r : Plan}

theorem reaches_filter {s s' : Wrapped Unit c.operator.State}
    (h : (filter q c).operator.ReachesOver D s s') : c.operator.ReachesOver D s.child s'.child :=
  h.lift Wrapped.child fun hstep => ((Filter.passes q c.operator _).step hstep).1

theorem reaches_project {s s' : Wrapped (List Project.Output) c.operator.State}
    (h : (project items c).operator.ReachesOver D s s') :
    c.operator.ReachesOver D s.child s'.child :=
  h.lift Wrapped.child fun hstep => ((Project.passes (c.regular _).settled items).step hstep).1

theorem reaches_rename {s s' : Wrapped Unit c.operator.State}
    (h : (rename table c).operator.ReachesOver D s s') :
    c.operator.ReachesOver D s.child s'.child :=
  h.lift Wrapped.child fun hstep => ((Rename.passes table c.operator _).step hstep).1

theorem reaches_barrier {s s' : Wrapped Unit c.operator.State}
    (h : (barrier c).operator.ReachesOver D s s') : c.operator.ReachesOver D s.child s'.child :=
  h.lift Wrapped.child fun hstep => ((Barrier.passes c.operator _).step hstep).1

theorem reaches_sort {s s' : Buffered c.operator.State}
    (h : (sort keys c).operator.ReachesOver D s s') : c.operator.ReachesOver D s.child s'.child :=
  h.lift Buffered.child fun hstep =>
    (Buffered.step_keeps (Sorting.loads keys c.operator _) hstep).1

theorem reaches_group {s s' : Buffered c.operator.State}
    (h : (group groupBy calls c).operator.ReachesOver D s s') :
    c.operator.ReachesOver D s.child s'.child :=
  h.lift Buffered.child fun hstep =>
    (Buffered.step_keeps (Group.loads groupBy calls.calls c.operator _) hstep).1

theorem reaches_limit {s s' : Limit.State c.operator.State}
    (h : (limit n m c).operator.ReachesOver D s s') : c.operator.ReachesOver D s.child s'.child :=
  h.lift Limit.State.child fun hstep => (Limit.moves hstep).1

theorem reaches_join {s s' : Join.State l.operator.State r.operator.State}
    (h : (join kind predicate swapped l r).operator.ReachesOver D s s') :
    l.operator.ReachesOver D s.left s'.left ∧ r.operator.ReachesOver D s.right s'.right :=
  ⟨h.lift Join.State.left fun hstep => (Join.step_moves hstep).1.1,
    h.lift Join.State.right fun hstep => (Join.step_moves hstep).1.2⟩

end Reaches

/-- From a state on, a plan gives and holds rows of a kind for its columns, and fails with errors of
a kind. -/
structure Served (D : Storage → Prop) (T : Schema → Row → Prop) (G : EvalError → Prop) (p : Plan)
    (s : p.operator.State) : Prop where
  serves : p.operator.Serves D (T (p.operator.status s).schema) G s
  keeps : ∀ {s'}, p.operator.ReachesOver D s s' → p.Kept T s'

section Assembled

variable {K : Schema → Row → Prop}

/-- A sort that was prepared over a plan serves the rows that the plan serves. -/
theorem served_sort {keys : List OrderKey} {c : Plan} {d : c.operator.State} {config : Config}
    {q : Profile} (s : Buffered c.operator.State) (hchild : c.Served D K G d)
    (hschema : (c.operator.status d).schema = c.schema)
    (hq : Sorting.profile config keys (c.operator.status d) = .ok q)
    (hkeys : ∀ x, K (c.operator.status d).schema x → ∀ k ∈ keys,
      Except.Meets (fun _ => True) G (k.expr.eval (.single (c.operator.status d).schema x)))
    (hrows : ∀ t ∈ s.rows, K c.schema t.values) :
    (sort keys c).Served D K G ⟨s.status.settle q, s.rows, s.loaded, s.position, s.mark, d⟩ := by
  obtain ⟨hserves, hkept⟩ := Sorting.serves
    ⟨s.status.settle q, s.rows, s.loaded, s.position, s.mark, d⟩
    (fun db => (c.regular db).settled) hchild.serves hkeys (fun _ hx => hx) (hschema ▸ hrows)
  refine ⟨(congrArg K (Sorting.schema_profile hq)).symm ▸ hserves, fun h => ?_⟩
  exact ⟨hschema ▸ hkept h, hchild.keeps (reaches_sort h)⟩

/-- A join that was prepared over two plans serves what it makes of the rows that they serve. -/
theorem served_join {kind : JoinKind} {q : Option Expr} {swapped : Bool} {l r : Plan}
    {a : l.operator.State} {b : r.operator.State} {x : Profile} {TJ : Row → Prop}
    (s : Join.State l.operator.State r.operator.State) (hleft : l.Served D K G a)
    (hright : r.Served D K G b) (hschema : (l.operator.status a).schema = l.schema)
    (hmakes : Join.Makes kind (l.operator.status a).schema.width
      (r.operator.status b).schema.width (K (l.operator.status a).schema)
      (K (r.operator.status b).schema) TJ)
    (htest : ∀ t u : Tuple, K (l.operator.status a).schema t.values →
      K (r.operator.status b).schema u.values → Within (fun _ => True) G
        (Join.matches? q (l.operator.status a).schema (r.operator.status b).schema t u))
    (hdress : ∀ y, TJ y →
      K x.schema (Join.dress swapped (l.operator.status a).schema.width y))
    (hkeeps : s.Keeps kind (K l.schema)) :
    (join kind q swapped l r).Served D K G ⟨s.status.settle x, (l.operator.status a).schema,
      (r.operator.status b).schema, s.progress, s.mark, a, b⟩ := by
  let s' : Join.State l.operator.State r.operator.State := ⟨s.status.settle x,
    (l.operator.status a).schema, (r.operator.status b).schema, s.progress, s.mark, a, b⟩
  have hheld : s'.Keeps kind (K (l.operator.status a).schema) :=
    hschema ▸ ⟨hkeeps.progress, hkeeps.mark⟩
  obtain ⟨hserves, hkept⟩ := Join.serves (T := K x.schema) s' r.calm hmakes htest hdress
    ⟨hleft.serves, hright.serves, ⟨rfl, rfl⟩, hheld⟩
  exact ⟨hserves, fun h => ⟨hschema ▸ hkept h, hleft.keeps (reaches_join h).1,
    hright.keeps (reaches_join h).2⟩⟩

end Assembled

/-- A prepared plan serves rows of the kind for the number of its columns, and fails with errors of
a kind only, as far as the stored rows that it scans and its expressions do. -/
theorem served (hT : RowKinds T) (hG : ∀ e : EvalError, e.ofValues = true → G e) (p : Plan)
    (hread : ∀ t ∈ p.scanned, ∀ {db page slot x}, D db → db.readFrom t.name page slot = some x →
      T t.schema.width x.values)
    (heval : ∀ e ∈ p.evaluated, e.FailsWithin T G) {k : p.Settings} {s s' : p.operator.State}
    (hs : p.Kept (fun s => T s.width) s) (hprep : p.prepareWith k s = (.ok (), s')) :
    p.Served D (fun s => T s.width) G s' := by
  -- In each case, what preparation settles as the width is what the operator makes of its inputs.
  induction p with
  | scan t q =>
    obtain ⟨r, hr, rfl⟩ := Leaf.prepare_eq_ok.1 hprep
    obtain rfl := Except.ok.inj hr
    refine ⟨Scan.serves (hread t List.mem_cons_self) fun u hu => ?_, fun _ => trivial⟩
    cases q with
    | none => trivial
    | some q => exact Operator.accepts_within hG ((heval q List.mem_cons_self).single hu)
  | values schema rows =>
    obtain ⟨r, hr, rfl⟩ := Leaf.prepare_eq_ok.1 hprep
    obtain ⟨hschema, hwide⟩ := Values.profile_ok hr
    refine ⟨Values.serves fun x hx => ?_, fun _ => trivial⟩
    have hlength : x.length = r.schema.width :=
      (hwide x hx).trans (congrArg Schema.width hschema.symm)
    exact hlength ▸ hT.of_length x
  | filter q c ih =>
    obtain ⟨d, r, u, hd, hr, rfl⟩ := Wrapped.prepare_eq_ok.1 hprep
    obtain ⟨rfl, rfl⟩ := Prod.mk.inj (Except.ok.inj hr)
    obtain ⟨hq, heval⟩ := List.forall_mem_cons.1 heval
    have hchild := ih hread heval hs hd
    exact ⟨Filter.serves (fun db => (c.regular db).settled) hchild.serves
      fun t ht => Operator.accepts_within hG (hq.single ht),
        fun h => hchild.keeps (reaches_filter h)⟩
  | project items c ih =>
    obtain ⟨d, r, u, hd, hr, rfl⟩ := Wrapped.prepare_eq_ok.1 hprep
    obtain ⟨os, hos, rfl, rfl⟩ := Project.settle_ok hr
    obtain ⟨hitems, heval⟩ := List.forall_mem_append.1 heval
    have hchild := ih hread heval hs hd
    exact ⟨Project.serves (fun db => (c.regular db).settled) hchild.serves
      fun x hx => Project.outputRow_within hT hitems hos hx,
        fun h => hchild.keeps (reaches_project h)⟩
  | rename t c ih =>
    obtain ⟨d, r, u, hd, hr, rfl⟩ := Wrapped.prepare_eq_ok.1 hprep
    obtain ⟨rfl, rfl⟩ := Prod.mk.inj (Except.ok.inj hr)
    have hchild := ih hread heval hs hd
    have hwidth : ((c.operator.status d).schema.rename t).width =
        (c.operator.status d).schema.width :=
      List.length_map _
    exact ⟨hwidth ▸ Rename.serves (fun db => (c.regular db).settled) hchild.serves,
      fun h => hchild.keeps (reaches_rename h)⟩
  | barrier c ih =>
    obtain ⟨d, r, u, hd, hr, rfl⟩ := Wrapped.prepare_eq_ok.1 hprep
    obtain ⟨rfl, rfl⟩ := Prod.mk.inj (Except.ok.inj hr)
    have hchild := ih hread heval hs hd
    exact ⟨Barrier.serves (fun db => (c.regular db).settled) hchild.serves,
      fun h => hchild.keeps (reaches_barrier h)⟩
  | sort keys c ih =>
    obtain ⟨d, r, hd, hr, rfl⟩ := Buffered.prepare_eq_ok.1 hprep
    obtain ⟨hkeys, heval⟩ := List.forall_mem_append.1 heval
    have hchild := ih hread heval hs.2 hd
    exact served_sort s hchild (c.schema_of_prepare hd) hr
      (fun x hx k hk => (hkeys k.expr (List.mem_map_of_mem hk)).single hx) hs.1
  | group keys calls c ih =>
    obtain ⟨d, r, hd, hr, rfl⟩ := Buffered.prepare_eq_ok.1 hprep
    obtain ⟨hown, heval⟩ := List.forall_mem_append.1 heval
    have hchild := ih hread heval hs.2 hd
    have hschema : r.schema = Group.resultSchema keys calls c.schema :=
      (group keys calls c).schema_of_prepare hprep
    let s' : Buffered c.operator.State :=
      ⟨(Buffered.status s).settle r, s.rows, s.loaded, s.position, s.mark, d⟩
    have hrows : ∀ x : Row, x.length = keys.length + calls.calls.length → T r.schema.width x :=
      fun x hx => (hx.trans (Group.width_profile hr).symm) ▸ hT.of_length x
    obtain ⟨hserves, hkept⟩ := Group.serves hG s' (fun db => (c.regular db).settled)
      hchild.serves (fun x hx e he => (hown e he).single hx) hrows (hschema ▸ hs.1)
    exact ⟨hserves, fun h => ⟨hschema ▸ hkept h, hchild.keeps (reaches_group h)⟩⟩
  | limit n k c ih =>
    obtain ⟨d, hd, rfl⟩ := Limit.prepare_eq_ok.1 hprep
    have hchild := ih hread heval hs hd
    exact ⟨Limit.serves hchild.serves, fun h => hchild.keeps (reaches_limit h)⟩
  | join kind q swapped l r ihl ihr =>
    obtain ⟨a, b, x, ha, hb, hkind, hx, rfl⟩ := Join.prepare_eq_ok.1 hprep
    obtain ⟨hkeeps, hsl, hsr⟩ := hs
    obtain ⟨hown, hr⟩ := List.forall_mem_append.1 heval
    obtain ⟨hq, hl⟩ := List.forall_mem_append.1 hown
    obtain ⟨hreadl, hreadr⟩ := List.forall_mem_append.1 hread
    have hleft := ihl hreadl hl hsl ha
    have hright := ihr hreadr hr hsr hb
    exact served_join s hleft hright (l.schema_of_prepare ha) (Join.makes hT kind _ _)
      (fun t u ht hu => Join.matches_within hG hq ht hu)
      (fun y hy => Join.dress_kind hT hkind hx hy) hkeeps

end Plan

end RelQuery
