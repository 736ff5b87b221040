import RelQuery.Proofs.Accepting

namespace RelQuery

namespace Expr

variable {e : Expr} {es : List Expr}

/-- The outermost calls in the arguments of the outermost calls, from left to right. -/
def innerCalls (e : Expr) : List Expr := e.calls.flatMap fun call => call.children.flatMap calls

theorem innerCalls_eq (h : e.isAggregate = false) :
    e.innerCalls = e.children.flatMap innerCalls := by
  rw [innerCalls, calls_eq h, List.flatMap_assoc]
  rfl

theorem innerCalls_of_isAggregate (h : e.isAggregate = true) :
    e.innerCalls = e.children.flatMap calls := by
  rw [innerCalls, calls_of_isAggregate h, List.flatMap_singleton]

theorem within_of_mem_calls {call : Expr} (h : call ∈ e.calls) : call.Within e := by
  induction e using children_induction with
  | step e ih =>
    cases he : e.isAggregate with
    | true =>
      rw [calls_of_isAggregate he] at h
      exact List.mem_singleton.1 h ▸ .self e
    | false =>
      rw [calls_eq he] at h
      obtain ⟨c, hc, h⟩ := List.mem_flatMap.1 h
      exact .part hc (ih c hc h)

theorem calls_eq_nil_iff : e.calls = [] ↔ e.containsAggregate = false := by
  induction e using children_induction with
  | step e ih =>
    rw [containsAggregate_eq_false]
    cases he : e.isAggregate with
    | true => simp [calls_of_isAggregate he]
    | false =>
      rw [calls_eq he, List.flatMap_eq_nil_iff]
      simp only [true_and]
      exact forall₂_congr ih

theorem innerCalls_eq_nil_iff : e.innerCalls = [] ↔ e.Flat := by
  simp only [innerCalls, List.flatMap_eq_nil_iff, calls_eq_nil_iff, Flat]

/-- A call stands in the argument of another, however deep, if and only if one stands in the
argument of an outermost one. -/
theorem nested_iff : e.Nested ↔ ¬e.Flat := by
  refine ⟨fun h hflat => hflat.not_nested h, fun h => ?_⟩
  simp only [Flat, not_forall, Bool.not_eq_false] at h
  obtain ⟨call, hcall, c, hc, hcontains⟩ := h
  exact ⟨call, within_of_mem_calls hcall, isAggregate_of_mem_calls hcall, c, hc, hcontains⟩

end Expr

namespace AggregateCollector

variable {α β : Type} {I J K : AggregateCollector → Prop} {c c' : AggregateCollector}
  {x : Collecting α} {f : α → Collecting β} {a : α} {e : Expr} {es : List Expr} {err : QueryError}

theorem run_bind_of_ok (h : x.run.run c = (.ok a, c')) :
    (x >>= f).run.run c = (f a).run.run c' := by
  rw [ExceptT.run_bind, StateT.run_bind, h]
  rfl

theorem run_bind_of_error (h : x.run.run c = (.error err, c')) :
    (x >>= f).run.run c = (.error err, c') := by
  rw [ExceptT.run_bind, StateT.run_bind, h]
  rfl

/-- A computation succeeds in each collector of a kind, and leaves one of a kind. -/
def Succeeds (I : AggregateCollector → Prop) (x : Collecting α) (J : AggregateCollector → Prop) :
    Prop := ∀ ⦃c⦄, I c → ∃ a c', x.run.run c = (.ok a, c') ∧ J c'

/-- A computation fails in each collector of a kind with one error, and leaves one of a kind. -/
def Fails (I : AggregateCollector → Prop) (x : Collecting α) (err : QueryError)
    (J : AggregateCollector → Prop) : Prop :=
  ∀ ⦃c⦄, I c → ∃ c', x.run.run c = (.error err, c') ∧ J c'

theorem Fails.bind (hx : Fails I x err J) (f : α → Collecting β) : Fails I (x >>= f) err J := by
  intro c hc
  obtain ⟨c', hrun, hc'⟩ := hx hc
  exact ⟨c', run_bind_of_error hrun, hc'⟩

theorem Succeeds.bind_fails (hx : Succeeds I x K) (hf : ∀ a, Fails K (f a) err J) :
    Fails I (x >>= f) err J := by
  intro c hc
  obtain ⟨a, c₁, hrun, hc₁⟩ := hx hc
  obtain ⟨c', herr, hc'⟩ := hf a hc₁
  exact ⟨c', (run_bind_of_ok hrun).trans herr, hc'⟩

/-- When the parts fail at the first item that they hold, a list of them fails at the first item
of all. -/
theorem fails_mapM {g : Expr → Collecting Expr} {items : Expr → List Expr}
    (error : Expr → QueryError) {item : Expr} {rest : List Expr}
    (hnone : ∀ e ∈ es, items e = [] → Succeeds I (g e) I)
    (hsome : ∀ e ∈ es, ∀ item rest, items e = item :: rest → Fails I (g e) (error item) J)
    (h : es.flatMap items = item :: rest) : Fails I (es.mapM g) (error item) J := by
  induction es with
  | nil => exact absurd h (by simp)
  | cons e es ih =>
    rw [List.mapM_cons]
    rw [List.flatMap_cons] at h
    cases hitems : items e with
    | nil =>
      rw [hitems, List.nil_append] at h
      refine (hnone e List.mem_cons_self hitems).bind_fails fun _ => Fails.bind ?_ _
      exact ih (fun e' he' => hnone e' (List.mem_cons_of_mem e he'))
        (fun e' he' => hsome e' (List.mem_cons_of_mem e he')) h
    | cons item' rest' =>
      rw [hitems, List.cons_append] at h
      obtain rfl := (List.cons.inj h).1
      exact (hsome e List.mem_cons_self item' rest' hitems).bind _

theorem succeeds_plain (h : e.calls = []) : Succeeds I (e.traverse enter leave) I := by
  intro c hc
  rw [traverse_plain (Expr.calls_eq_nil_iff.1 h)]
  exact ⟨e, c, rfl, hc⟩

/-- Where calls are refused, the first one ends the traversal, and nothing has changed. -/
theorem fails_refusing {call : Expr} {rest : List Expr} (hc : c.Refusing)
    (h : e.calls = call :: rest) :
    Fails (· = c) (e.traverse enter leave) (c.refusal call) (· = c) := by
  induction e using Expr.children_induction generalizing call rest with
  | step e ih =>
    rw [Expr.traverse_eq]
    cases he : e.isAggregate with
    | true =>
      rw [Expr.calls_of_isAggregate he] at h
      obtain rfl := (List.cons.inj h).1
      have henter : Fails (· = c) (enter e) (c.refusal e) (· = c) := by
        rintro _ rfl
        exact ⟨_, enter_refused hc he, rfl⟩
      exact henter.bind _
    | false =>
      rw [Expr.calls_eq he] at h
      rw [enter_plain he, pure_bind, Expr.mapChildren_eq, bind_assoc]
      exact (fails_mapM c.refusal (fun x _ => succeeds_plain) (fun x hx _ _ => ih x hx) h).bind _

theorem succeeds_flat (h : e.innerCalls = []) :
    Succeeds Outside (e.traverse enter leave) Outside := by
  rintro ⟨m, _, _⟩ ⟨rfl, rfl⟩
  exact ⟨_, _, collects_traverse (Expr.innerCalls_eq_nil_iff.1 h) m, rfl, rfl⟩

theorem fails_outside {call : Expr} {rest : List Expr} (h : e.innerCalls = call :: rest) :
    Fails Outside (e.traverse enter leave) (.illegalAggregate (.nested call))
      (·.disallowedIn = none) := by
  induction e using Expr.children_induction generalizing call rest with
  | step e ih =>
    rw [Expr.traverse_eq, Expr.mapChildren_eq, bind_assoc]
    cases he : e.isAggregate with
    | true =>
      rw [Expr.innerCalls_of_isAggregate he] at h
      intro c hc
      have hparts := fails_mapM (refusal { c with depth := c.depth + 1 })
        (fun x _ => succeeds_plain) (fun x _ _ _ => fails_refusing (refusing_within c)) h
      have hnested : refusal { c with depth := c.depth + 1 } call =
        .illegalAggregate (.nested call) := by
        simp only [refusal, hc.1]
      rw [hnested] at hparts
      obtain ⟨_, hrun, rfl⟩ := hparts rfl
      exact ⟨_, (run_bind_of_ok (enter_outside hc he)).trans (run_bind_of_error hrun), hc.1⟩
    | false =>
      rw [Expr.innerCalls_eq he] at h
      rw [enter_plain he, pure_bind]
      exact (fails_mapM (fun call => .illegalAggregate (.nested call)) (fun x _ => succeeds_flat)
        (fun x hx _ _ => ih x hx) h).bind _

/-- What comes of an expression, by the clause that may hold no calls: the first call that is
refused, or else the expression over the columns of its calls. -/
def verdict (disallowedIn : Option String) (e : Expr) : Except QueryError Expr :=
  match disallowedIn with
  | some clause =>
    match e.calls with
    | [] => .ok e
    | call :: _ => .error (.illegalAggregate (.notAllowedIn clause call))
  | none =>
    match e.innerCalls with
    | [] => .ok e.hideCalls
    | call :: _ => .error (.illegalAggregate (.nested call))

theorem replace_disallowed {clause : String} (hc : c.disallowedIn = some clause) (e : Expr) :
    c.replace e = (verdict (some clause) e, { c with depth := 0 }) := by
  cases hcalls : e.calls with
  | nil =>
    rw [replace, traverse_plain (Expr.calls_eq_nil_iff.1 hcalls), verdict, hcalls]
    rfl
  | cons call rest =>
    have hrefusing : Refusing { c with depth := 0 } := .inl (by simp [hc])
    obtain ⟨_, hrun, rfl⟩ := fails_refusing hrefusing hcalls rfl
    rw [replace, hrun, verdict, hcalls, refusal]
    simp only [hc]

theorem replace_allowed (hc : c.disallowedIn = none) (e : Expr) :
    (c.replace e).1 = verdict none e ∧ (c.replace e).2.disallowedIn = none := by
  cases hcalls : e.innerCalls with
  | nil =>
    rw [replace_eq hc (Expr.innerCalls_eq_nil_iff.1 hcalls), verdict, hcalls]
    exact ⟨rfl, rfl⟩
  | cons call rest =>
    have houtside : Outside { c with depth := 0 } := ⟨hc, rfl⟩
    obtain ⟨c', hrun, hallowed⟩ := fails_outside hcalls houtside
    rw [replace, hrun, verdict, hcalls]
    exact ⟨rfl, hallowed⟩

theorem replace_fst (c : AggregateCollector) (e : Expr) :
    (c.replace e).1 = verdict c.disallowedIn e := by
  cases hc : c.disallowedIn with
  | none => exact (replace_allowed hc e).1
  | some clause => rw [replace_disallowed hc]

theorem disallowedIn_replace (c : AggregateCollector) (e : Expr) :
    (c.replace e).2.disallowedIn = c.disallowedIn := by
  cases hc : c.disallowedIn with
  | none => exact (replace_allowed hc e).2
  | some clause =>
    rw [replace_disallowed hc]
    exact hc

section Depth

variable {underflow : QueryError}

theorem run_enter_ok (h : (enter e).run.run c = (.ok (), c')) :
    c'.depth = if e.isAggregate = true then c.depth + 1 else c.depth := by
  split
  case isTrue he =>
    rw [run_enter c he] at h
    split at h
    · rw [← (Prod.mk.inj h).2]
    · exact absurd (Prod.mk.inj h).1 (by simp)
  case isFalse he =>
    rw [enter_plain (Bool.eq_false_iff.2 he)] at h
    rw [← (Prod.mk.inj h).2]

theorem run_leave_ok {r : Expr} (h : (leave e).run.run c = (.ok r, c')) :
    c'.depth = if e.isAggregate = true then c.depth - 1 else c.depth := by
  split
  case isTrue he =>
    rw [leave, he] at h
    rw [← (Prod.mk.inj h).2]
  case isFalse he =>
    rw [leave_plain (Bool.eq_false_iff.2 he)] at h
    rw [← (Prod.mk.inj h).2]

theorem isAggregate_mapChildren {g : Expr → Collecting Expr} {r : Expr}
    (h : (e.mapChildren g).run.run c = (.ok r, c')) : r.isAggregate = e.isAggregate := by
  rw [Expr.mapChildren_eq] at h
  obtain ⟨es, c₁, -, h⟩ := run_bind_ok.1 h
  obtain rfl := Except.ok.inj (Prod.mk.inj h).1
  exact Expr.isAggregate_withParts e es

theorem tells_depth (e : Expr) (d : Nat) : Tells (·.depth = d) (e.traverse enter leave) True := by
  induction e using Expr.children_induction generalizing d with
  | step e ih =>
    intro c a c' hc h
    rw [Expr.traverse_eq] at h
    obtain ⟨_, c₁, henter, h⟩ := run_bind_ok.1 h
    obtain ⟨r, c₂, hchildren, hleave⟩ := run_bind_ok.1 h
    have hentered := run_enter_ok henter
    have hparts := (tells_mapChildren (fun x hx => ih x hx c₁.depth) rfl hchildren).1
    have hleft := run_leave_ok hleave
    rw [isAggregate_mapChildren hchildren] at hleft
    refine ⟨?_, trivial⟩
    split at hentered <;> simp_all

/-- Leaves a node, or fails where the number of calls around it would fall below zero. -/
def leaveOr (underflow : QueryError) (e : Expr) : Collecting Expr := do
  let c ← get
  if e.isAggregate && c.depth == 0 then
    throw underflow
  leave e

def replaceOr (underflow : QueryError) (c : AggregateCollector) (e : Expr) :
    Except QueryError Expr × AggregateCollector :=
  (e.traverse enter (leaveOr underflow)).run.run { c with depth := 0 }

theorem run_leaveOr (h : e.isAggregate = true → 0 < c.depth) :
    (leaveOr underflow e).run.run c = (leave e).run.run c := by
  have hcheck : (e.isAggregate && c.depth == 0) = false := by
    cases he : e.isAggregate with
    | false => rfl
    | true => simpa using (h he).ne'
  change ((if e.isAggregate && c.depth == 0 then throw underflow >>= fun _ => leave e
    else leave e : Collecting Expr)).run.run c = _
  rw [hcheck]
  rfl

theorem run_bind_congr {g : α → Collecting β} (h : ∀ ⦃a c'⦄, x.run.run c = (.ok a, c') →
    (f a).run.run c' = (g a).run.run c') : (x >>= f).run.run c = (x >>= g).run.run c := by
  rcases hrun : x.run.run c with ⟨err | a, c'⟩
  · rw [run_bind_of_error hrun, run_bind_of_error hrun]
  · rw [run_bind_of_ok hrun, run_bind_of_ok hrun, h hrun]

theorem traverse_leaveOr (underflow : QueryError) (e : Expr) :
    e.traverse enter (leaveOr underflow) = e.traverse enter leave := by
  induction e using Expr.children_induction with
  | step e ih =>
    refine ExceptT.ext (StateT.ext fun c => ?_)
    rw [Expr.traverse_eq, Expr.traverse_eq, Expr.mapChildren_congr ih]
    refine run_bind_congr fun _ c₁ henter => run_bind_congr fun r c₂ hchildren => run_leaveOr ?_
    intro hr
    rw [isAggregate_mapChildren hchildren] at hr
    have hentered := run_enter_ok henter
    rw [if_pos hr] at hentered
    have hparts := (tells_mapChildren (fun x _ => tells_depth x c₁.depth) rfl hchildren).1
    omega

end Depth

section Uses

/-- What a collector is used for, step by step. -/
inductive Use
  | disallow (clause : String)
  | allow
  | replace (e : Expr)

def Use.perform (c : AggregateCollector) : Use → AggregateCollector
  | disallow clause => c.disallow clause
  | allow => c.allow
  | replace e => (c.replace e).2

def Use.setting (disallowedIn : Option String) : Use → Option String
  | disallow clause => some clause
  | allow => none
  | replace _ => disallowedIn

variable {use : Use} {uses : List Use}

theorem disallowedIn_perform (c : AggregateCollector) (use : Use) :
    (use.perform c).disallowedIn = use.setting c.disallowedIn := by
  cases use with
  | disallow | allow => rfl
  | replace e => exact disallowedIn_replace c e

/-- The collector that is left by uses of a new one, among them replacements that failed. -/
def after (uses : List Use) : AggregateCollector := uses.foldl Use.perform empty

/-- The clause that may hold no calls after uses of a new collector. -/
def setting (uses : List Use) : Option String := uses.foldl Use.setting none

theorem disallowedIn_after (uses : List Use) : (after uses).disallowedIn = setting uses :=
  (List.foldl_hom disallowedIn fun c use => (disallowedIn_perform c use).symm).symm

end Uses

/-- An expression is refused for its aggregate calls. -/
def Refused (result : Except QueryError Expr) : Prop :=
  ∃ placement, result = .error (.illegalAggregate placement)

theorem refused_disallowed {clause : String} :
    Refused (verdict (some clause) e) ↔ e.containsAggregate = true := by
  rw [← Bool.not_eq_false, ← Expr.calls_eq_nil_iff, verdict]
  cases e.calls <;> simp [Refused]

theorem refused_allowed : Refused (verdict none e) ↔ e.Nested := by
  rw [Expr.nested_iff, ← Expr.innerCalls_eq_nil_iff, verdict]
  cases e.innerCalls <;> simp [Refused]

theorem verdict_plain (h : e.containsAggregate = false) (disallowedIn : Option String) :
    verdict disallowedIn e = .ok e := by
  have hcalls := Expr.calls_eq_nil_iff.2 h
  have hinner : e.innerCalls = [] := by rw [Expr.innerCalls, hcalls, List.flatMap_nil]
  cases disallowedIn with
  | some clause => rw [verdict, hcalls]
  | none => rw [verdict, hinner, Expr.hideCalls_plain h]

theorem refused_of_error {disallowedIn : Option String} (h : verdict disallowedIn e = .error err) :
    Refused (verdict disallowedIn e) := by
  unfold verdict at h ⊢
  split at h <;> split at h
  · exact absurd h (by simp)
  · exact ⟨_, rfl⟩
  · exact absurd h (by simp)
  · exact ⟨_, rfl⟩

/-- A replacement follows the verdict under a setting, collects nothing where calls are not allowed,
and never leaves more calls than it has entered. -/
structure Judges (disallowedIn : Option String) (c : AggregateCollector) (e : Expr) : Prop where
  judged : (c.replace e).1 = verdict disallowedIn e
  refused : (∃ err, (c.replace e).1 = .error err) ↔ Refused (c.replace e).1
  disallowed : disallowedIn.isSome = true →
    (Refused (c.replace e).1 ↔ e.containsAggregate = true) ∧ (c.replace e).2.collected = c.collected
  allowed : disallowedIn = none → (Refused (c.replace e).1 ↔ e.Nested)
  unchanged : e.containsAggregate = false → (c.replace e).1 = .ok e
  no_underflow : ∀ underflow, c.replaceOr underflow e = c.replace e

theorem judges (c : AggregateCollector) (e : Expr) : Judges c.disallowedIn c e where
  judged := replace_fst c e
  refused := by
    rw [replace_fst]
    exact ⟨fun ⟨_, h⟩ => refused_of_error h, fun ⟨_, h⟩ => ⟨_, h⟩⟩
  disallowed h := by
    obtain ⟨clause, hclause⟩ := Option.isSome_iff_exists.1 h
    rw [replace_disallowed hclause]
    exact ⟨refused_disallowed, rfl⟩
  allowed h := by
    rw [replace_fst, h]
    exact refused_allowed
  unchanged h := by rw [replace_fst, verdict_plain h]
  no_underflow underflow := by rw [replaceOr, replace, traverse_leaveOr]

/-- Whatever a collector was used for before, failed replacements among it, what becomes of an
expression depends on the last setting only. -/
theorem verdict_after (uses : List Use) (e : Expr) : Judges (setting uses) (after uses) e := by
  rw [← disallowedIn_after]
  exact judges (after uses) e

/-- The second replacement fails between entering `MAX` and leaving it. -/
example :
    let sum : Expr := .aggregate .sum false (.column (.unqualified "a"))
    let nested : Expr := .aggregate .max false sum
    let uses := [.disallow "WHERE", .replace sum, .allow, .replace nested]
    (after uses).depth = 1 ∧
      ((after uses).replace (.not sum)).1 = .ok (.not (.column (.unqualified "#SUM(a)"))) :=
  ⟨rfl, rfl⟩

end AggregateCollector

end RelQuery
