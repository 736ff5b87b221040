import RelQuery.Proofs.Layers
import RelQuery.Proofs.Serving

namespace RelQuery

variable {c : Operator} {D : Storage → Prop} {T T' : Row → Prop} {G : EvalError → Prop}

namespace Operator

theorem evalRow_within {s : Schema} {e : Expr} {r : Row}
    (h : Except.Meets (fun _ => True) G (e.eval (.single s r))) :
    Within (fun _ => True) G (evalRow s e r) :=
  h.mapError fun _ he => he

theorem accepts_within (hG : ∀ e : EvalError, e.ofValues = true → G e) {s : Schema} {e : Expr}
    {t : Tuple} (h : Except.Meets (fun _ => True) G (e.eval (.single s t.values))) :
    Within (fun _ => True) G (accepts s e t) :=
  (Expr.holds_meets hG h).mapError fun _ he => he

end Operator

section Leaf

variable {κ : Type} {kind : OperatorKind} {label : String}
  {profile : Config → Except QueryError Profile} {source : Leaf.Source κ}

theorem Leaf.serves {s₀ : Leaf κ} (hpull : ∀ {db p}, D db →
    Within (fun x => ∀ t, x = some t → T t.values) G (source.pull db s₀.status.schema p).1) :
    (Operator.leaf kind label profile source).Serves D T G s₀ := by
  refine Operator.Serves.of_next (o := .leaf kind label profile source)
    (fun s : Leaf κ => s.status.profile = s₀.status.profile) (fun _ hs hstep => ?_)
    (fun {db} {s : Leaf κ} {r} {s' : Leaf κ} hdb hs hnext => ?_) rfl
  · exact (Leaf.step_keeps hstep).1.trans hs
  · obtain ⟨hp, -, -⟩ := Leaf.next_eq (show Leaf.next (source.pull db) s = _ from hnext)
    have hschema : s.status.schema = s₀.status.schema := by rw [Status.schema, Status.schema, hs]
    have hgives := hpull (p := s.position) hdb
    rwa [← hschema, hp] at hgives

theorem Values.serves {schema : Schema} {rows : List Row} {s₀ : Leaf Nat} (h : ∀ r ∈ rows, T r) :
    (Operator.values schema rows).Serves D T G s₀ := by
  refine Leaf.serves fun {db p} _ => ?_
  change Within _ G (Values.pull rows p).1
  unfold Values.pull
  split
  · exact fun t ht => nomatch ht
  · next r hr =>
    intro t ht
    obtain rfl := Option.some.inj ht
    exact h r (List.mem_of_getElem? hr)

theorem Scan.pull_within {test : Tuple → Except QueryError Bool} {db : Storage} {table : String}
    (hread : ∀ {page slot t}, db.readFrom table page slot = some t → T t.values)
    (htest : ∀ t : Tuple, T t.values → Within (fun _ => True) G (test t)) (fuel : Nat)
    (p : Position) :
    Within (fun x => ∀ t, x = some t → T t.values) G (pull test db table fuel p).1 := by
  induction fuel generalizing p with
  | zero => exact fun t ht => nomatch ht
  | succ fuel ih =>
    rw [pull]
    split
    · exact fun t ht => nomatch ht
    · split
      · exact fun t ht => nomatch ht
      · next u hu =>
        have hu := hread hu
        have hresult := htest u hu
        dsimp only
        rcases h : test u with e | _ | _
        · rw [h] at hresult
          exact hresult
        · exact ih _
        · intro t ht
          obtain rfl := Option.some.inj ht
          exact hu

theorem Scan.serves {table : TableInfo} {predicate : Option Expr} {s₀ : Leaf Position}
    (hread : ∀ {db page slot t}, D db → db.readFrom table.name page slot = some t → T t.values)
    (htest : ∀ t : Tuple, T t.values →
      Within (fun _ => True) G (accepts s₀.status.schema predicate t)) :
    (Operator.scan table predicate).Serves D T G s₀ :=
  Leaf.serves fun hdb => pull_within (hread hdb) htest _ _

end Leaf

section Wrapped

/-- An operator that works on its input's tuples one by one serves what it makes of the traces that
the input can have. -/
theorem Wrapped.serves {κ : Type} {kind : OperatorKind} {label : String} {marks : Bool}
    {refusal : StateError} {orderedBy : List OrderKey} {body : Wrapped.Body κ c}
    {s₀ : Wrapped κ c.State} (hset : ∀ db, c.Settled db)
    (hnext : ∀ {db s r s'}, body.next db s = (r, s') → Wrapped.Moves c db .any s s')
    (hc : c.Serves D T G s₀.child)
    (htrace : ∀ {db} {s : Wrapped κ c.State}, s.status.schema = s₀.status.schema →
      s.settled = s₀.settled → (c.status s.child).schema = (c.status s₀.child).schema →
      (c.trace db s.child).Good T G →
      ((Operator.wrapped kind label marks refusal orderedBy c body).trace db s).Good T' G) :
    (Operator.wrapped kind label marks refusal orderedBy c body).Serves D T' G s₀ := by
  refine Operator.Serves.of_invariant
    (o := .wrapped kind label marks refusal orderedBy c body)
    (fun s : Wrapped κ c.State => c.Serves D T G s.child ∧
      (c.status s.child).schema = (c.status s₀.child).schema ∧
      (s.status.profile, s.settled) = (s₀.status.profile, s₀.settled)) ?_ ?_ ⟨hc, rfl, rfl⟩
  · rintro db s s' hdb ⟨hserves, hschema, hfixed⟩ hstep
    obtain ⟨hreach, hkept⟩ := wrapped_moves (fun h _ => hnext h) hstep
    exact ⟨hserves.of_reaches hdb hreach, ((hset db).schema hreach).trans hschema,
      hkept.trans hfixed⟩
  · rintro db s hdb ⟨hserves, hschema, hfixed⟩
    obtain ⟨hprofile, hsettled⟩ := Prod.mk.inj hfixed
    exact htrace (by rw [Status.schema, Status.schema, hprofile]) hsettled hschema
      (hserves .refl hdb)

variable (hset : ∀ db, c.Settled db)

include hset

theorem Filter.serves {predicate : Expr} {s₀ : Wrapped Unit c.State} (hc : c.Serves D T G s₀.child)
    (htest : ∀ t : Tuple, T t.values →
      Within (fun _ => True) G (Operator.accepts s₀.status.schema predicate t)) :
    (Operator.filter predicate c).Serves D T G s₀ := by
  refine Wrapped.serves hset (fun h => moves h (.inl rfl)) hc fun {db s} hschema _ _ hgood => ?_
  refine (congrArg (Trace.Good T G) (trace_eq predicate s)).mpr (hgood.choose fun t ht => ?_)
  have hresult := htest t ht
  rw [keep, hschema]
  rcases h : Operator.accepts s₀.status.schema predicate t with e | _ | _
  · rw [h] at hresult
    exact hresult
  · intro u hu
    simp at hu
  · intro u hu
    obtain rfl := Option.some.inj hu
    exact ht

theorem Rename.serves {table : String} {s₀ : Wrapped Unit c.State}
    (hc : c.Serves D T G s₀.child) : (Operator.rename table c).Serves D T G s₀ :=
  Wrapped.serves hset (fun h => ⟨.next (next_eq h).1 (.inl rfl), (next_eq h).2⟩) hc
    fun {_ s} _ _ _ hgood => (congrArg (Trace.Good T G) (trace_eq table s)).mpr hgood

theorem Barrier.serves {s₀ : Wrapped Unit c.State} (hc : c.Serves D T G s₀.child) :
    (Operator.barrier c).Serves D T G s₀ := by
  refine Wrapped.serves hset (fun h => ?_) hc
    fun {_ s} _ _ _ hgood => (congrArg (Trace.Good T G) (trace_eq s)).mpr hgood
  obtain ⟨hnext, rfl⟩ := Prod.mk.inj h
  exact ⟨.next (Prod.ext hnext rfl) (.inl rfl), rfl⟩

theorem Project.serves {items : List SelectItem} {s₀ : Wrapped (List Output) c.State}
    (hc : c.Serves D T G s₀.child) (hrow : ∀ r, T r →
      Within T' G (outputRow (c.status s₀.child).schema s₀.settled r)) :
    (Operator.project items c).Serves D T' G s₀ := by
  refine Wrapped.serves hset (fun h => moves h (.inl rfl)) hc
    fun {db s} _ hsettled hschema hgood => ?_
  refine (congrArg (Trace.Good T' G) (trace_eq (hset db) items s)).mpr
    (hgood.choose fun t ht => ?_)
  rw [make, hschema, hsettled]
  refine (hrow t.values ht).map fun r hr u hu => ?_
  obtain rfl := Option.some.inj hu
  exact hr

omit hset in
theorem Limit.serves {limit : Option Nat} {offset : Nat} {s₀ : State c.State}
    (hc : c.Serves D T G s₀.child) : (Operator.limit limit offset c).Serves D T G s₀ := by
  refine Operator.Serves.of_invariant (o := .limit limit offset c)
    (fun s : State c.State => c.Serves D T G s.child) ?_ ?_ hc
  · exact fun hdb hs hstep => Operator.Serves.of_reaches hs hdb (moves hstep).1
  · exact fun {_ s} hdb hs =>
      (congrArg (Trace.Good T G) (trace_eq limit offset s)).mpr (hs .refl hdb).window

end Wrapped

namespace Buffered

variable {kind : OperatorKind} {orderedBy : List OrderKey} {label : String}
  {profile : Config → Status → Except QueryError Profile} {loader : Loader c}
  {s₀ s s' : Buffered c.State} {db : Storage}

theorem hand_within (h : ∀ t ∈ s.rows, T t.values) :
    Within (fun x => ∀ t, x = some t → T t.values) G s.hand.1 := by
  unfold hand
  split
  · exact fun t ht => nomatch ht
  · next u hu =>
    intro t ht
    obtain rfl := Option.some.inj ht
    exact h u (List.mem_of_getElem? hu)

/-- A buffer gives rows of the kind that it holds or loads, and holds such rows afterwards. -/
theorem next_within {load : c.State → Outcome (List Tuple) c.State}
    (hrows : ∀ t ∈ s.rows, T t.values)
    (hload : Within (fun rows => ∀ t ∈ rows, T t.values) G (load s.child).1) :
    Within (fun x => ∀ t, x = some t → T t.values) G (Buffered.next load s).1 ∧
      ∀ t ∈ (Buffered.next load s).2.rows, T t.values := by
  have hand_rows : ∀ s : Buffered c.State, s.hand.2.rows = s.rows := fun s =>
    (hand_keeps (s := s) rfl).2.2.2.2
  unfold Buffered.next
  split
  · exact ⟨hand_within hrows, by rwa [hand_rows]⟩
  · rcases h : load s.child with ⟨e | rows, d⟩ <;> rw [h] at hload
    · exact ⟨hload, hrows⟩
    · exact ⟨hand_within hload, by rwa [hand_rows]⟩

theorem rows_call {call : Call} (hcall : call ≠ .next) (db : Storage) (s : Buffered c.State)
    (h : ∀ t ∈ s.rows, T t.values) : ∀ t ∈ Buffered.rows
      ((Operator.buffered kind orderedBy label c profile loader).call db call s).2, T t.values := by
  cases call with
  | next => exact absurd rfl hcall
  | rewind =>
    cases hcheck : Status.check (Buffered.status s) kind with
    | error e =>
      have hrewind := rewind_of_unprepared c.rewind hcheck
      rwa [show (Operator.buffered kind orderedBy label c profile loader).call db .rewind s = _
        from hrewind]
    | ok _ =>
      have hrewind := rewind_of_prepared c.rewind hcheck
      rw [show (Operator.buffered kind orderedBy label c profile loader).call db .rewind s = _
        from hrewind]
      exact fun _ ht => absurd ht List.not_mem_nil
  | mark => exact h
  | reset =>
    obtain ⟨p, hp⟩ := reset_keeps (Prod.ext rfl rfl : Buffered.reset kind s = (_, _))
    have hrows := congrArg Buffered.rows hp
    rwa [show Buffered.rows ((Operator.buffered kind orderedBy label c profile loader).call db
      .reset s).2 = _ from hrows]
  | cleanUp => exact fun _ ht => absurd ht List.not_mem_nil

/-- A buffer serves what it makes of the traces that the input can have, and holds nothing else. -/
theorem serves (L : ∀ db, Loads c db (loader.load db)) (hset : ∀ db, c.Settled db)
    (hc : c.Serves D T G s₀.child) (hload : ∀ {db tr}, D db → tr.Good T G →
      Within (fun rows => ∀ t ∈ rows, T' t.values) G ((L db).rows (c.status s₀.child).schema tr))
    (hrows : ∀ t ∈ s₀.rows, T' t.values) :
    (Operator.buffered kind orderedBy label c profile loader).Serves D T' G s₀ ∧
      ∀ {s}, (Operator.buffered kind orderedBy label c profile loader).ReachesOver D s₀ s →
        ∀ t ∈ Buffered.rows s, T' t.values := by
  let I := fun s : Buffered c.State => c.Serves D T G s.child ∧
    (c.status s.child).schema = (c.status s₀.child).schema ∧ ∀ t ∈ s.rows, T' t.values
  have hnext : ∀ {db} {s : Buffered c.State}, D db → I s →
      Within (fun x => ∀ t, x = some t → T' t.values) G (Buffered.next (loader.load db) s).1 ∧
        ∀ t ∈ (Buffered.next (loader.load db) s).2.rows, T' t.values := by
    rintro db s hdb ⟨hserves, hschema, hrows⟩
    refine next_within hrows ?_
    rw [(L db).result, hschema]
    exact hload hdb (hserves .refl hdb)
  have hkeeps : ∀ {db} {s s' : Buffered c.State}, D db → I s →
      (Operator.buffered kind orderedBy label c profile loader).Step db .any s s' → I s' := by
    rintro db s s' hdb hs hstep
    have hreach := (step_keeps (L db) hstep).1
    refine ⟨hs.1.of_reaches hdb hreach, ((hset db).schema hreach).trans hs.2.1, ?_⟩
    obtain ⟨call, r, -, hcall, -⟩ := hstep
    obtain rfl := (congrArg Prod.snd hcall).symm
    by_cases h : call = .next
    · subst h
      exact (hnext hdb hs).2
    · exact rows_call h db s hs.2.2
  refine ⟨?_, fun hrun => ?_⟩
  · refine Operator.Serves.of_next (o := .buffered kind orderedBy label c profile loader) I
      hkeeps (fun {db s r s'} hdb hs h => ?_) ⟨hc, rfl, hrows⟩
    have hgives := (hnext hdb hs).1
    rwa [show Buffered.next (loader.load db) s = (r, s') from h] at hgives
  · have hI := hrun.keeps (I := I) hkeeps ⟨hc, rfl, hrows⟩
    exact hI.2.2

end Buffered

/-- Sorting gives rows of the kind that it takes, when its keys have values. -/
theorem Sorting.loads_within (db : Storage) {keys : List OrderKey} {s : Schema} {tr : Trace}
    (htr : tr.Good T G)
    (hkeys : ∀ r, T r → ∀ k ∈ keys, Within (fun _ => True) G (Operator.evalRow s k.expr r)) :
    Within (fun rows => ∀ t ∈ rows, T t.values) G ((Sorting.loads keys c db).rows s tr) := by
  have hfold : Within (fun pairs : List (Row × Tuple) => ∀ p ∈ pairs, T p.2.values) G
      (tr.fold (collect s keys) []) := by
    refine htr.fold (fun _ hp => absurd hp List.not_mem_nil) fun pairs t ht hpairs => ?_
    refine (Except.meets_mapM fun k hk => hkeys t.values ht k hk).bind fun values _ => ?_
    refine List.forall_mem_append.2 ⟨hpairs, List.forall_mem_singleton.2 ht⟩
  refine hfold.bind fun pairs hpairs t ht => ?_
  obtain ⟨p, hp, rfl⟩ := List.mem_map.1 ht
  exact hpairs p (List.mem_mergeSort.1 hp)

theorem Sorting.serves {keys : List OrderKey} (s₀ : Buffered c.State) (hset : ∀ db, c.Settled db)
    (hc : c.Serves D T G s₀.child) (hkeys : ∀ r, T r → ∀ k ∈ keys,
      Except.Meets (fun _ => True) G (k.expr.eval (.single (c.status s₀.child).schema r)))
    (hT : ∀ r, T r → T' r) (hrows : ∀ t ∈ s₀.rows, T' t.values) :
    (Operator.sort keys c).Serves D T' G s₀ ∧
      ∀ {s}, (Operator.sort keys c).ReachesOver D s₀ s → ∀ t ∈ Buffered.rows s, T' t.values := by
  refine Buffered.serves (fun db => Sorting.loads keys c db) hset hc (fun {db _} _ htr => ?_) hrows
  have hloads := loads_within (c := c) db htr fun r hr k hk =>
    Operator.evalRow_within (hkeys r hr k hk)
  exact hloads.mono (fun _ hts t ht => hT _ (hts t ht)) fun _ he => he

def AggregateMap.arguments (aggregates : AggregateMap) : List Expr :=
  aggregates.calls.filterMap fun e => e.aggregateCall?.bind AggregateCall.arg

namespace Group

variable {groupBy calls : List Expr} {s : Schema} {K : Row → Prop} {A : Expr → Accumulator → Prop}

/-- A class has keys of a kind, and for each call an accumulator of a kind. -/
structure Class.Keeps (K : Row → Prop) (A : Expr → Accumulator → Prop) (calls : List Expr)
    (c : Class) : Prop where
  keys : K c.keys
  accumulators : List.Forall₂ A calls c.accumulators

section Classes

variable (hstart : ∀ e ∈ calls, ∀ call, e.aggregateCall? = some call → A e (.start call))

include hstart

theorem startAll_within : Within (List.Forall₂ A calls) G (startAll calls) := by
  induction calls with
  | nil => exact .nil
  | cons e es ih =>
    obtain ⟨he, hes⟩ := List.forall_mem_cons.1 hstart
    rw [startAll]
    split
    · trivial
    · next call hcall => exact (ih hes).bind fun as has => .cons (he call hcall) has

omit hstart in
theorem updateAll_within {env : Environment} {as : List Accumulator}
    (hupdate : ∀ e ∈ calls, ∀ a, A e a → Except.Meets (A e) G (a.update env))
    (has : List.Forall₂ A calls as) : Within (List.Forall₂ A calls) G (updateAll env as) := by
  unfold updateAll
  induction has with
  | nil => exact .nil
  | cons ha has ih =>
    obtain ⟨he, hes⟩ := List.forall_mem_cons.1 hupdate
    rw [List.mapM_cons]
    have hfirst : Within (A _) G
        ((_ : Except EvalError Accumulator).mapError QueryError.evaluation) :=
      (he _ ha).mapError fun _ h => h
    exact hfirst.bind fun b hb => (ih hes).bind fun bs hbs => .cons hb hbs

theorem absorb_within {env : Environment} {values : Row}
    (hupdate : ∀ e ∈ calls, ∀ a, A e a → Except.Meets (A e) G (a.update env)) (hvalues : K values)
    {cs : List Class} (hcs : ∀ c ∈ cs, c.Keeps K A calls) :
    Within (fun cs' : List Class => ∀ c ∈ cs', c.Keeps K A calls) G
      (absorb calls env values cs) := by
  induction cs with
  | nil =>
    refine (startAll_within hstart).bind fun as has => ?_
    refine (updateAll_within hupdate has).bind fun bs hbs => ?_
    exact List.forall_mem_singleton.2 ⟨hvalues, hbs⟩
  | cons c cs ih =>
    obtain ⟨hc, hrest⟩ := List.forall_mem_cons.1 hcs
    rw [absorb]
    split
    · refine (updateAll_within hupdate hc.accumulators).bind fun bs hbs => ?_
      exact List.forall_mem_cons.2 ⟨⟨hc.keys, hbs⟩, hrest⟩
    · exact (ih hrest).bind fun cs' hcs' => List.forall_mem_cons.2 ⟨hc, hcs'⟩

theorem finish_within {classes : List Class} (hclasses : ∀ c ∈ classes, c.Keeps K A calls)
    (hnil : groupBy = [] → K [])
    (hT : ∀ keys as, K keys → List.Forall₂ A calls as → T (keys ++ as.map Accumulator.finish)) :
    Within (fun rows => ∀ t ∈ rows, T t.values) G (finish groupBy calls classes) := by
  unfold finish
  split
  · next hnone =>
    -- Without rows and keys there is one class, of the calls alone.
    obtain ⟨-, hkeys⟩ := Bool.and_eq_true_iff.1 hnone
    refine (startAll_within hstart).bind fun as has => ?_
    exact List.forall_mem_singleton.2 (hT [] as (hnil (List.isEmpty_iff.1 hkeys)) has)
  · intro t ht
    obtain ⟨c, hc, rfl⟩ := List.mem_map.1 ht
    exact hT _ _ (hclasses c hc).keys (hclasses c hc).accumulators

/-- The rows of a grouping are made of keys and of results of accumulators, which stay of the kinds
that they start with and are kept in. -/
theorem loads_keep {db : Storage} {tr : Trace} (htr : tr.Good T G)
    (hkeys : ∀ r, T r → Within K G (groupBy.mapM fun e => Operator.evalRow s e r))
    (hupdate : ∀ r, T r → ∀ e ∈ calls, ∀ a, A e a →
      Except.Meets (A e) G (a.update (.single s r)))
    (hnil : groupBy = [] → K [])
    (hT : ∀ keys as, K keys → List.Forall₂ A calls as → T' (keys ++ as.map Accumulator.finish)) :
    Within (fun rows => ∀ t ∈ rows, T' t.values) G
      ((Group.loads groupBy calls c db).rows s tr) := by
  have hfold : Within (fun cs : List Class => ∀ c ∈ cs, c.Keeps K A calls) G
      (tr.fold (step s groupBy calls) []) := by
    refine htr.fold (fun _ hc => absurd hc List.not_mem_nil) fun cs t ht hcs => ?_
    exact (hkeys t.values ht).bind fun values hvalues =>
      absorb_within hstart (hupdate t.values ht) hvalues hcs
  exact hfold.bind fun classes hclasses => finish_within hstart hclasses hnil hT

end Classes

/-- The rows of a grouping have a value for each key and each call, when keys and arguments have
values. -/
theorem loads_within (hG : ∀ e : EvalError, e.ofValues = true → G e) {db : Storage} {tr : Trace}
    (htr : tr.Good T G)
    (hkeys : ∀ r, T r → ∀ e ∈ groupBy, Within (fun _ => True) G (Operator.evalRow s e r))
    (hargs : ∀ r, T r → ∀ e ∈ calls, ∀ call, e.aggregateCall? = some call → ∀ a,
      call.arg = some a → Except.Meets (fun _ => True) G (a.eval (.single s r)))
    (hT : ∀ r : Row, r.length = groupBy.length + calls.length → T' r) :
    Within (fun rows => ∀ t ∈ rows, T' t.values) G
      ((Group.loads groupBy calls c db).rows s tr) := by
  -- The calls of the accumulators are those of the list, whose arguments have values on all rows.
  refine loads_keep (K := fun keys => keys.length = groupBy.length)
    (A := fun e a => e.aggregateCall? = some a.call) (fun e _ call hcall => hcall) htr
    (fun r hr => (Except.meets_mapM (hkeys r hr)).imp (fun _ h => h.1) fun _ h => h)
    (fun r hr e he a ha => ?_) (fun hnil => by rw [hnil]; rfl) fun keys as hkeys has => hT _ ?_
  · have hupdate := Accumulator.update_meets hG (hargs r hr e he a.call ha)
    exact hupdate.imp (fun b hb => hb ▸ ha) fun _ h => h
  · rw [List.length_append, List.length_map, hkeys, ← has.length_eq]

theorem serves (hG : ∀ e : EvalError, e.ofValues = true → G e) {aggregates : AggregateMap}
    (s₀ : Buffered c.State) (hset : ∀ db, c.Settled db) (hc : c.Serves D T G s₀.child)
    (hown : ∀ r, T r → ∀ e ∈ groupBy ++ aggregates.arguments,
      Except.Meets (fun _ => True) G (e.eval (.single (c.status s₀.child).schema r)))
    (hT : ∀ r : Row, r.length = groupBy.length + aggregates.calls.length → T' r)
    (hrows : ∀ t ∈ s₀.rows, T' t.values) :
    (Operator.group groupBy aggregates c).Serves D T' G s₀ ∧
      ∀ {s}, (Operator.group groupBy aggregates c).ReachesOver D s₀ s →
        ∀ t ∈ Buffered.rows s, T' t.values := by
  refine Buffered.serves (fun db => Group.loads groupBy aggregates.calls c db) hset hc
    (fun {db _} _ htr => loads_within hG htr (fun r hr e he => ?_)
      (fun r hr e he call hcall a ha => ?_)
      hT) hrows
  · exact Operator.evalRow_within (hown r hr e (List.mem_append_left _ he))
  · refine hown r hr a (List.mem_append_right _ (List.mem_filterMap.2 ⟨e, he, ?_⟩))
    rw [hcall]
    exact ha

end Group

end RelQuery
