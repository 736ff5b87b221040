import RelQuery.Proofs.JoinPlanning
import RelQuery.Proofs.Widths
import RelQuery.Proofs.StoredRows

namespace RelQuery

variable {db : Storage} {config : Config} {c c' cl cr : Cursor} {p : Plan} {L : List Row}

/-- A cursor that planning leaves: its plan is prepared, and the rows that it scans have one value
for each column. -/
structure Cursor.Planned (db : Storage) (config : Config) (c : Cursor) : Prop where
  prepared : Cursor.prepared c.plan config = .ok c
  reads : c.plan.ReadsWide db

theorem Cursor.planned_of_prepared (h : Cursor.prepared p config = .ok c) (hp : p.ReadsWide db) :
    c.Planned db config := by
  obtain ⟨s, hs, rfl⟩ := prepared_ok h
  exact ⟨h, hp⟩

theorem Cursor.Planned.fits (h : c.Planned db config) : c.plan.operator.Fits db c.state := by
  obtain ⟨s, hs, hc⟩ := prepared_ok h.prepared
  rw [hc]
  exact c.plan.fits h.reads hs

/-- The rows of a planned cursor have one value for each of its columns. -/
theorem Cursor.Planned.length_rows (h : c.Planned db config) (hL : c.rows db = .ok L) :
    ∀ l ∈ L, l.length = c.schema.width := by
  obtain ⟨d, hd, rfl, -⟩ := gives_of_rows hL .refl
  intro l hl
  obtain ⟨t, ht, rfl⟩ := List.mem_map.1 hl
  exact h.fits (.rewind hd (.inr rfl)) t ht

namespace Planning

theorem planned_layer {f : Plan → Plan} (hf : (f c.plan).ReadsWide db)
    (h : layer config c f = .ok c') : c'.Planned db config := Cursor.planned_of_prepared h hf

theorem layerSome_keeps {C : Cursor → Prop} {α : Type} {f : α → Plan → Plan} {o : Option α}
    (hc : C c) (hf : ∀ a, o = some a → ∀ {c'}, layer config c (f a) = .ok c' → C c')
    (h : layerSome config c f o = .ok c') : C c' := by
  cases o with
  | none =>
    obtain rfl := Except.ok.inj h
    exact hc
  | some a => exact hf a rfl h

theorem layerIf_keeps {C : Cursor → Prop} {f : Plan → Plan} {wanted : Bool} (hc : C c)
    (hf : wanted = true → ∀ {c'}, layer config c f = .ok c' → C c')
    (h : layerIf config c wanted f = .ok c') : C c' := by
  unfold layerIf at h
  split at h
  · next hwanted => exact hf hwanted h
  · obtain rfl := Except.ok.inj h
    exact hc

theorem planned_layerSome {α : Type} {f : α → Plan → Plan} {o : Option α} (hc : c.Planned db config)
    (hf : ∀ a, (f a c.plan).ReadsWide db) (h : layerSome config c f o = .ok c') :
    c'.Planned db config :=
  layerSome_keeps hc (fun a _ {_} hlayer => planned_layer (hf a) hlayer) h

theorem planned_layerIf {f : Plan → Plan} {wanted : Bool} (hc : c.Planned db config)
    (hf : (f c.plan).ReadsWide db) (h : layerIf config c wanted f = .ok c') :
    c'.Planned db config :=
  layerIf_keeps hc (fun _ {_} hlayer => planned_layer hf hlayer) h

/-- Every stage of a statement is laid over a planned cursor, and reads what this one reads. -/
theorem planned_body {b : SelectBody} (hc : c.Planned db config) (h : body config c b = .ok c') :
    c'.Planned db config := by
  obtain ⟨_, -, h⟩ := Except.bind_eq_ok.1 h
  obtain ⟨c₁, h₁, h⟩ := Except.bind_eq_ok.1 h
  obtain ⟨-, -, h⟩ := Except.bind_eq_ok.1 h
  obtain ⟨⟨_, _⟩, -, h⟩ := Except.bind_eq_ok.1 h
  obtain ⟨c₂, h₂, h⟩ := Except.bind_eq_ok.1 h
  obtain ⟨c₃, h₃, h⟩ := Except.bind_eq_ok.1 h
  obtain ⟨c₄, h₄, h⟩ := Except.bind_eq_ok.1 h
  obtain ⟨c₅, h₅, h⟩ := Except.bind_eq_ok.1 h
  obtain ⟨c₆, h₆, h₇⟩ := Except.bind_eq_ok.1 h
  have hc₁ := planned_layerSome hc (fun _ => hc.reads) h₁
  have hc₂ := planned_layerIf hc₁ hc₁.reads h₂
  have hc₃ := planned_layerSome hc₂ (fun _ => hc₂.reads) h₃
  have hc₄ := planned_layerIf hc₃ hc₃.reads h₄
  have hc₅ := planned_layerIf hc₄ hc₄.reads h₅
  have hc₆ := planned_layerIf hc₅ hc₅.reads h₆
  exact planned_layerIf hc₆ hc₆.reads h₇

/-- A scan is planned when its table is there, with the predicate as it comes through. -/
theorem scan_ok {table : String} {predicate : Option Expr}
    (h : scan db config table predicate = .ok c) :
    ∃ q info, predicate.mapM (AggregateCollector.check whereClause) = .ok q ∧
      db.openTable table = .ok info ∧ Cursor.prepared (.scan info q) config = .ok c := by
  unfold scan at h
  split at h
  · exact absurd h (Except.throw_bind_ne_ok _ _ _)
  obtain ⟨q, hq, h⟩ := Except.bind_eq_ok.1 h
  obtain ⟨info, hinfo, h⟩ := Except.bind_eq_ok.1 h
  exact ⟨q, info, hq, hinfo, h⟩

theorem planned_scan {table : String} {predicate : Option Expr} (hdb : db.Sound)
    (h : scan db config table predicate = .ok c) : c.Planned db config := by
  obtain ⟨q, info, -, hinfo, h⟩ := scan_ok h
  refine Cursor.planned_of_prepared h fun {page slot x} hx => ?_
  obtain ⟨t, ht, rfl⟩ := Storage.openTable_eq_ok.1 hinfo
  exact hdb.readFrom ht hx

theorem planned_join {kind : JoinKind} {condition : JoinCondition} (hl : cl.Planned db config)
    (hr : cr.Planned db config) (h : join config cl cr kind condition = .ok c) :
    c.Planned db config := by
  obtain ⟨⟨predicate, shared⟩, -, h⟩ := Except.bind_eq_ok.1 h
  obtain ⟨cj, hj, h⟩ := Except.bind_eq_ok.1 h
  have hcj : cj.Planned db config := by
    refine Cursor.planned_of_prepared hj ?_
    unfold joinPlan
    split
    · exact ⟨hr.reads, hl.reads⟩
    · exact ⟨hl.reads, hr.reads⟩
  split at h
  · obtain rfl := Except.ok.inj h
    exact hcj
  · obtain ⟨items, -, h⟩ := Except.bind_eq_ok.1 h
    exact planned_layer hcj.reads h

theorem planned_source {s : Source} (hdb : db.Sound) (h : source db config s = .ok c) :
    c.Planned db config := by
  induction s generalizing c with
  | single => exact Cursor.planned_of_prepared h trivial
  | table t name =>
    obtain ⟨c₁, h₁, h⟩ := Except.bind_eq_ok.1 h
    have hc₁ := planned_scan hdb h₁
    cases name with
    | none =>
      obtain rfl := Except.ok.inj h
      exact hc₁
    | some a =>
      dsimp only at h
      split at h
      · obtain rfl := Except.ok.inj h
        exact hc₁
      · exact planned_layer hc₁.reads h
  | derived s b name ih =>
    obtain ⟨c₁, h₁, h⟩ := Except.bind_eq_ok.1 h
    obtain ⟨c₂, h₂, h⟩ := Except.bind_eq_ok.1 h
    have hc₂ := planned_body (ih h₁) h₂
    exact planned_layer hc₂.reads h
  | join l r kind condition ihl ihr =>
    obtain ⟨cl, hl, h⟩ := Except.bind_eq_ok.1 h
    obtain ⟨cr, hr, h⟩ := Except.bind_eq_ok.1 h
    exact planned_join (ihl hl) (ihr hr) h

theorem plan_ok {enclosing : List Select} {q : Select} (h : q.plan db config enclosing = .ok c) :
    ∃ c₁, source db config q.source = .ok c₁ ∧ body config c₁ q.body = .ok c := by
  unfold Select.plan at h
  split at h
  · exact absurd h (Except.throw_bind_ne_ok _ _ _)
  · exact Except.bind_eq_ok.1 h

/-- A join of planned relations is planned exactly when full names tell the columns of its inputs
apart, and then it has the columns and the rows of the reference join. -/
theorem source_join {l r : Source} {kind : JoinKind} {condition : JoinCondition} (hdb : db.Built)
    (hl : source db config l = .ok cl) (hr : source db config r = .ok cr)
    (hsuits : condition.Suits cl.schema cr.schema) :
    ((∃ c, source db config (.join l r kind condition) = .ok c) ↔
      kind.Nameable cl.schema cr.schema (condition.sharedNames cl.schema cr.schema)) ∧
    ∀ c, source db config (.join l r kind condition) = .ok c →
      c.schema = kind.columns cl.schema cr.schema (condition.sharedNames cl.schema cr.schema) ∧
      ∀ L R, cl.rows db = .ok L → cr.rows db = .ok R →
        (∀ p, condition.predicate cl.schema cr.schema = some p → ∀ l ∈ L, ∀ r ∈ R,
          ∃ b, p.holds (.pair cl.schema l cr.schema r) = .ok b) →
        c.rows db = .ok ((kind.reference (condition.passes cl.schema cr.schema) (· ++ ·)
          cl.schema.width cr.schema.width L R).map
            (kind.shape cl.schema cr.schema (condition.sharedNames cl.schema cr.schema))) := by
  have hcl := planned_source hdb.sound hl
  have hcr := planned_source hdb.sound hr
  have hjoin : source db config (.join l r kind condition) = join config cl cr kind condition := by
    rw [source, hl, hr]
    rfl
  rw [hjoin]
  refine ⟨⟨fun ⟨c, hc⟩ => ?_, join_succeeds hcl.prepared hcr.prepared hsuits⟩, fun c hc => ?_⟩
  · exact nameable_of_join hcl.prepared hcr.prepared hsuits hc
  · obtain ⟨hschema, hgives⟩ := join_result hcl.prepared hcr.prepared hsuits hc
    refine ⟨hschema, fun L R hL hR htotal => ?_⟩
    exact Cursor.rows_of_gives (hgives (Cursor.gives_of_rows hL) (Cursor.gives_of_rows hR)
      (hcl.length_rows hL) (hcr.length_rows hR) htotal)

/-- A relation of one row of integers, under a name. -/
def constants (name : String) (fields : List (String × Int64)) : Source :=
  .derived .single ⟨fields.map fun f => .expr (.literal (.int f.2)) (some f.1), none, [], none, [],
    none, 0⟩ name

theorem source_join_constants :
    let a := constants "a" [("k", 1), ("x", 10)]
    let b := constants "b" [("k", 2), ("y", 20)]
    ∃ c, source (.create 1) .default (.join a b .fullOuter (.using ["k"])) = .ok c ∧
      c.schema.columns.map Column.fullName = [⟨none, "k"⟩, ⟨some "a", "x"⟩, ⟨some "b", "y"⟩] ∧
      c.rows (.create 1) = .ok [[.int 1, .int 10, .null], [.int 2, .null, .int 20]] := by
  intro a b
  obtain ⟨cl, hl⟩ : ∃ cl, source (.create 1) .default a = .ok cl := ⟨_, rfl⟩
  obtain ⟨cr, hr⟩ : ∃ cr, source (.create 1) .default b = .ok cr := ⟨_, rfl⟩
  obtain ⟨c, hc⟩ : ∃ c, source (.create 1) .default (.join a b .fullOuter (.using ["k"])) = .ok c :=
    ⟨_, rfl⟩
  have hls : cl.schema = ⟨[⟨"k", some "a", .integer⟩, ⟨"x", some "a", .integer⟩]⟩ := by
    obtain rfl := Except.ok.inj hl
    rfl
  have hrs : cr.schema = ⟨[⟨"k", some "b", .integer⟩, ⟨"y", some "b", .integer⟩]⟩ := by
    obtain rfl := Except.ok.inj hr
    rfl
  have hL : cl.rows (.create 1) = .ok [[.int 1, .int 10]] := by
    obtain rfl := Except.ok.inj hl
    rfl
  have hR : cr.rows (.create 1) = .ok [[.int 2, .int 20]] := by
    obtain rfl := Except.ok.inj hr
    rfl
  have hsuits : (JoinCondition.using ["k"]).Suits cl.schema cr.schema := by
    rw [hls, hrs]
    exact ⟨by decide, by decide, by decide, fun p hp => (nomatch hp), fun p hp => (nomatch hp)⟩
  obtain ⟨hschema, hrows⟩ := (source_join (.create 1) hl hr hsuits).2 c hc
  have hjoined := hrows _ _ hL hR (by
    rw [hls, hrs]
    rintro p ⟨⟩ l hl r hr
    obtain rfl := List.mem_singleton.1 hl
    obtain rfl := List.mem_singleton.1 hr
    exact ⟨false, rfl⟩)
  rw [hls, hrs] at hschema hjoined
  refine ⟨c, hc, ?_, hjoined⟩
  rw [hschema]
  rfl

/-- Over a full outer join a shared column has no table, and a second join does not find it by its
name. -/
example :
    let a := constants "a" [("k", 1), ("x", 10)]
    let b := constants "b" [("k", 2), ("y", 20)]
    let keys := constants "c" [("k", 1)]
    source (.create 1) .default
        (.join (.join a b .fullOuter (.using ["k"])) keys .inner (.using ["k"])) =
      .error (.evaluation (.unresolved (.ambiguous ⟨none, "k"⟩))) := rfl

/-- A relation of two rows, where what one lacks is NULL. -/
def outerConstants : Source :=
  .join (constants "a" [("k", 1), ("x", 10)]) (constants "b" [("k", 2), ("y", 20)]) .fullOuter
    (.using ["k"])

theorem source_outerConstants :
    ∃ c, source (.create 1) .default outerConstants = .ok c ∧
      c.schema = ⟨[⟨"k", none, .integer⟩, ⟨"x", some "a", .integer⟩, ⟨"y", some "b", .integer⟩]⟩ ∧
      c.rows (.create 1) = .ok [[.int 1, .int 10, .null], [.int 2, .null, .int 20]] :=
  ⟨_, rfl, rfl, rfl⟩

end Planning

end RelQuery
