import RelQuery.Proofs.PlanServing

namespace RelQuery

variable {db : Storage} {config : Config}

def AllWide (width : Nat) (ts : List Tuple) : Prop := ∀ t ∈ ts, t.values.length = width

/-- In every run since a state was reached, each tuple has one value for each column. -/
def Operator.Fits (o : Operator) (db : Storage) (s₀ : o.State) : Prop :=
  ∀ ⦃s⦄, o.Reaches db .runs s₀ s → AllWide (o.status s₀).schema.width (o.trace db s).tuples

theorem Operator.Fits.next {o : Operator} {s₀ s s' : o.State} {t : Tuple} (h : o.Fits db s₀)
    (hs : o.Reaches db .runs s₀ s) (hnext : o.next db s = (.ok (some t), s')) :
    t.values.length = (o.status s₀).schema.width :=
  h hs t (by rw [Operator.trace_of_some hnext]; exact List.mem_cons_self)

namespace Plan

/-- The stored rows that a plan scans have one value for each column that it expects. -/
def ReadsWide (db : Storage) : Plan → Prop
  | scan t _ => ∀ {page slot x}, db.readFrom t.name page slot = some x →
      x.values.length = t.schema.width
  | values .. => True
  | filter _ c | project _ c | rename _ c | sort _ c | limit _ _ c | group _ _ c | barrier c =>
    c.ReadsWide db
  | join _ _ _ l r => l.ReadsWide db ∧ r.ReadsWide db

theorem ReadsWide.scanned {p : Plan} (h : p.ReadsWide db) : ∀ t ∈ p.scanned, ∀ {page slot x},
    db.readFrom t.name page slot = some x → x.values.length = t.schema.width := by
  induction p with
  | scan t _ => exact List.forall_mem_singleton.2 h
  | values => exact fun _ ht => absurd ht List.not_mem_nil
  | filter _ _ ih | project _ _ ih | rename _ _ ih | sort _ _ ih | limit _ _ _ ih | group _ _ _ ih
  | barrier _ ih => exact ih h
  | join _ _ _ _ _ ihl ihr => exact List.forall_mem_append.2 ⟨ihl h.1, ihr h.2⟩

/-- The rows of every run since a plan was prepared have one value for each column. -/
theorem fits (p : Plan) (h : p.ReadsWide db) {s : p.operator.State}
    (hs : p.operator.prepare config p.operator.start = (.ok (), s)) : p.operator.Fits db s := by
  rw [← p.prepareWith_uniform config] at hs
  have hserved := p.served (D := (· = db)) rowKinds_length (fun _ _ => trivial)
    (fun t ht {_ _ _ _} hdb hx => h.scanned t ht (hdb ▸ hx))
    (fun e _ => ⟨fun _ => Except.meets_any _, fun _ _ => Except.meets_any _⟩) p.kept_start hs
  exact fun s' hs' => (hserved.serves (.of_reaches rfl hs') rfl).rows

end Plan

end RelQuery
