import RelQuery.Proofs.OpenedTables
import RelQuery.Proofs.PlanServing

namespace RelQuery

variable {D : Storage → Prop} {T : Schema → Row → Prop}

def Schema.Spans (s : Schema) (r : Row) : Prop := r.length = s.width

namespace Plan

/-- A prepared plan over opened tables serves rows with one value for each column, and no row in it
is too short for a reference. -/
theorem served_wide (p : Plan) (hopen : ∀ t ∈ p.scanned, ∀ {db}, D db → db.OpenedIn t)
    {k : p.Settings} {s s' : p.operator.State} (hs : p.Kept Schema.Spans s)
    (hprep : p.prepareWith k s = (.ok (), s')) :
    p.Served D Schema.Spans (fun e => ∀ n, e ≠ .tupleTooShort n) s' := by
  refine p.served rowKinds_length (fun e he n => ?_)
    (fun t ht {_ _ _ _} hdb hx => (hopen t ht hdb).readFrom
      (P := fun columns r => r.length = columns.width) Table.length_coerceRow hx)
    (fun e _ => ⟨?_, ?_⟩) hs hprep
  · rintro rfl
    simp [EvalError.ofValues] at he
  · exact fun hr => e.eval_meets (Environment.full_single hr).permits fun _ _ _ => by simp
  · exact fun hr hr' => e.eval_meets (Environment.full_pair hr hr').permits fun _ _ _ => by simp

/-- No call changes what preparation settled, whatever becomes of the storage. -/
theorem profile_eq {p : Plan} {s s' : p.operator.State} (h : p.operator.ReachesOver D s s') :
    (p.operator.status s').profile = (p.operator.status s).profile := by
  refine h.keeps (I := fun x => (p.operator.status x).profile = (p.operator.status s).profile)
    (fun {db _ _} _ hx hstep => ?_) rfl
  exact ((p.regular db).settled (.single hstep)).trans hx

theorem schema_eq {p : Plan} {s s' : p.operator.State} (h : p.operator.ReachesOver D s s') :
    (p.operator.status s').schema = (p.operator.status s).schema := by
  rw [Status.schema, Status.schema, profile_eq h]

theorem Served.reaches {p : Plan} {G : EvalError → Prop} {s s' : p.operator.State}
    (h : p.Served D T G s) (hs : p.operator.ReachesOver D s s') : p.Served D T G s' :=
  ⟨schema_eq hs ▸ h.serves.reaches hs, fun hs' => h.keeps (hs.trans hs')⟩

end Plan

theorem exists_of_forall₂ {α β : Type} {R : α → β → Prop} {l : List α} {m : List β}
    (h : List.Forall₂ R l m) : ∀ b ∈ m, ∃ a ∈ l, R a b := by
  induction h with
  | nil => exact fun _ hb => absurd hb List.not_mem_nil
  | cons h _ ih =>
    intro b hb
    obtain rfl | hb := List.mem_cons.1 hb
    · exact ⟨_, List.mem_cons_self, h⟩
    · obtain ⟨a, ha, hab⟩ := ih b hb
      exact ⟨a, List.mem_cons_of_mem _ ha, hab⟩

namespace Tree

variable {t t' t'' i : Tree}

/-- A run of calls over storages of a kind leads from a tree to another. -/
def Runs (D : Storage → Prop) (t t' : Tree) : Prop :=
  ∃ s, t.plan.operator.ReachesOver D t.state s ∧ t' = { t with state := s }

theorem Runs.trans (h : t.Runs D t') (h' : t'.Runs D t'') : t.Runs D t'' := by
  obtain ⟨s, hs, rfl⟩ := h
  obtain ⟨s', hs', rfl⟩ := h'
  exact ⟨s', hs.trans hs', rfl⟩

theorem schema_of_runs (hrun : t.Runs D t') : t'.cursor.schema = t.cursor.schema := by
  obtain ⟨s, hs, rfl⟩ := hrun
  exact Plan.schema_eq hs

def inputs : Tree → List Tree
  | ⟨.scan .., _, _⟩ | ⟨.values .., _, _⟩ => []
  | ⟨.filter _ c, k, s⟩ | ⟨.project _ c, k, s⟩ | ⟨.rename _ c, k, s⟩ | ⟨.barrier c, k, s⟩ =>
    [⟨c, k.2, Wrapped.child s⟩]
  | ⟨.sort _ c, k, s⟩ | ⟨.group _ _ c, k, s⟩ => [⟨c, k.2, Buffered.child s⟩]
  | ⟨.limit _ _ c, k, s⟩ => [⟨c, k.2, Limit.State.child s⟩]
  | ⟨.join _ _ _ l r, k, s⟩ => [⟨l, k.2.1, Join.State.left s⟩, ⟨r, k.2.2, Join.State.right s⟩]

theorem mem_nodes_self (t : Tree) : t ∈ t.nodes := by
  obtain ⟨p, k, s⟩ := t
  cases p <;> exact List.mem_cons_self

theorem nodes_subset_of_mem_inputs (hi : i ∈ t.inputs) : i.nodes ⊆ t.nodes := by
  obtain ⟨p, k, s⟩ := t
  cases p with
  | scan | values => exact absurd hi List.not_mem_nil
  | filter | project | rename | barrier | sort | group | limit =>
    obtain rfl := List.mem_singleton.1 hi
    exact List.subset_cons_self ..
  | join _ _ _ l r =>
    obtain rfl | hi := List.mem_cons.1 hi
    · exact fun m hm => List.mem_cons_of_mem _ (List.mem_append_left _ hm)
    · obtain rfl := List.mem_singleton.1 hi
      exact fun m hm => List.mem_cons_of_mem _ (List.mem_append_right _ hm)

theorem scanned_subset_of_mem_inputs (hi : i ∈ t.inputs) : i.plan.scanned ⊆ t.plan.scanned := by
  obtain ⟨p, k, s⟩ := t
  cases p with
  | scan | values => exact absurd hi List.not_mem_nil
  | filter | project | rename | barrier | sort | group | limit =>
    obtain rfl := List.mem_singleton.1 hi
    exact List.Subset.refl _
  | join _ _ _ l r =>
    obtain rfl | hi := List.mem_cons.1 hi
    · exact List.subset_append_left ..
    · obtain rfl := List.mem_singleton.1 hi
      exact List.subset_append_right ..

/-- What goes down from an operator to its inputs, all operators of a tree have from the root. -/
theorem forall_nodes {P : Tree → Prop} (hP : ∀ {t}, P t → ∀ i ∈ t.inputs, P i) (h : P t) :
    ∀ n ∈ t.nodes, P n := by
  obtain ⟨p, k, s⟩ := t
  simp only [nodes]
  induction p with
  | scan | values => exact List.forall_mem_singleton.2 h
  | filter _ c ih | project _ c ih | rename _ c ih | barrier c ih | sort _ c ih | group _ _ c ih
  | limit _ _ c ih =>
    exact List.forall_mem_cons.2 ⟨h, ih k.2 _ (hP h _ List.mem_cons_self)⟩
  | join _ _ _ l r ihl ihr =>
    have hl := ihl k.2.1 _ (hP h _ List.mem_cons_self)
    have hr := ihr k.2.2 _ (hP h _ (List.mem_cons_of_mem _ List.mem_cons_self))
    exact List.forall_mem_cons.2 ⟨h, List.forall_mem_append.2 ⟨hl, hr⟩⟩

theorem inputs_of_runs (h : t.Runs D t') : List.Forall₂ (Runs D) t.inputs t'.inputs := by
  obtain ⟨p, k, s⟩ := t
  obtain ⟨s', hs', rfl⟩ := h
  have one : ∀ {i i' : Tree}, i.Runs D i' → List.Forall₂ (Runs D) [i] [i'] := fun h => .cons h .nil
  cases p with
  | scan | values => exact .nil
  | filter => exact one ⟨_, Plan.reaches_filter hs', rfl⟩
  | project => exact one ⟨_, Plan.reaches_project hs', rfl⟩
  | rename => exact one ⟨_, Plan.reaches_rename hs', rfl⟩
  | barrier => exact one ⟨_, Plan.reaches_barrier hs', rfl⟩
  | sort => exact one ⟨_, Plan.reaches_sort hs', rfl⟩
  | group => exact one ⟨_, Plan.reaches_group hs', rfl⟩
  | limit => exact one ⟨_, Plan.reaches_limit hs', rfl⟩
  | join =>
    exact .cons ⟨_, (Plan.reaches_join hs').1, rfl⟩ (one ⟨_, (Plan.reaches_join hs').2, rfl⟩)

/-- What each operator keeps when it is called, all operators below another keep when that is
called: it calls them. -/
theorem nodes_of_runs {P : Tree → Prop} (hkeep : ∀ {t t'}, P t → t.Runs D t' → P t')
    (h : ∀ n ∈ t.nodes, P n) (hrun : t.Runs D t') : ∀ n ∈ t'.nodes, P n := by
  -- Each operator was led to by a run of the one that stood in its place before.
  have hbelow : ∀ n ∈ t'.nodes, ∃ m : Tree, m.Runs D n ∧ ∀ n ∈ m.nodes, P n := by
    refine forall_nodes (fun {n} hn i hi => ?_) ⟨t, hrun, h⟩
    obtain ⟨m, hrun, hm⟩ := hn
    obtain ⟨j, hj, hrunj⟩ := exists_of_forall₂ (inputs_of_runs hrun) i hi
    exact ⟨j, hrunj, fun n hn => hm n (nodes_subset_of_mem_inputs hj hn)⟩
  intro n hn
  obtain ⟨m, hrun, hm⟩ := hbelow n hn
  exact hkeep (hm m m.mem_nodes_self) hrun

/-- The tables that a tree scans were opened in the past of a storage. -/
def OpenedIn (t : Tree) (db : Storage) : Prop := ∀ info ∈ t.plan.scanned, db.OpenedIn info

/-- The rows that the operators of a tree hold are of a kind. -/
def Kept (T : Schema → Row → Prop) (t : Tree) : Prop := t.plan.Kept T t.state

theorem Kept.inputs (h : t.Kept T) : ∀ i ∈ t.inputs, i.Kept T := by
  intro i hi
  obtain ⟨p, k, s⟩ := t
  cases p with
  | scan | values => exact absurd hi List.not_mem_nil
  | filter | project | rename | barrier | limit =>
    obtain rfl := List.mem_singleton.1 hi
    exact (h :)
  | sort | group =>
    obtain rfl := List.mem_singleton.1 hi
    exact h.2
  | join =>
    obtain rfl | hi := List.mem_cons.1 hi
    · exact h.2.1
    · obtain rfl := List.mem_singleton.1 hi
      exact h.2.2

/-- A tree that runs since it was prepared, over storages in which its tables were opened, with what
held of it before the preparation and of all its operators after. -/
structure Running (D : Storage → Prop) (K C : Tree → Prop) (t : Tree) : Prop where
  opened : ∀ info ∈ t.plan.scanned, ∀ {db}, D db → db.OpenedIn info
  prepared : ∃ k s s₀, K ⟨t.plan, k, s⟩ ∧ t.plan.prepareWith k s = (.ok (), s₀) ∧
    (∀ n ∈ nodesOf t.plan k s₀, C n) ∧ t.plan.operator.ReachesOver D s₀ t.state

namespace Running

variable {K C : Tree → Prop}

theorem of_prepare (h : K t) (hprep : t.prepare = (.ok (), t')) (hC : ∀ n ∈ t'.nodes, C n) :
    t'.Running t.OpenedIn K C := by
  obtain ⟨hok, rfl⟩ := Prod.mk.inj hprep
  exact ⟨fun info hinfo {_} hdb => hdb info hinfo, t.settings, t.state, _, h, Prod.ext hok rfl, hC,
    .refl⟩

theorem of_runs (h : t.Running D K C) (hrun : t.Runs D t') : t'.Running D K C := by
  obtain ⟨s', hs', rfl⟩ := hrun
  obtain ⟨k, s, s₀, hs, hprep, hC, hreach⟩ := h.prepared
  exact ⟨h.opened, k, s, s₀, hs, hprep, hC, hreach.trans hs'⟩

theorem served_wide (h : t.Running D (Kept Schema.Spans) C) :
    t.plan.Served D Schema.Spans (fun e => ∀ n, e ≠ .tupleTooShort n) t.state := by
  obtain ⟨k, s, s₀, hs, hprep, -, hreach⟩ := h.prepared
  exact (t.plan.served_wide h.opened hs hprep).reaches hreach

variable (hK : ∀ {t}, K t → ∀ i ∈ t.inputs, K i)

include hK

theorem of_mem_inputs (h : t.Running D K C) (hi : i ∈ t.inputs) : i.Running D K C := by
  refine ⟨fun info hinfo {_} hdb => h.opened info (scanned_subset_of_mem_inputs hi hinfo) hdb, ?_⟩
  obtain ⟨p, j, a⟩ := t
  obtain ⟨k, s, s₀, hs, hprep, hC, hreach⟩ := h.prepared
  cases p with
  | scan | values => exact absurd hi List.not_mem_nil
  | filter _ c =>
    obtain rfl := List.mem_singleton.1 hi
    obtain ⟨d, q, u, hd, -, rfl⟩ := Wrapped.prepare_eq_ok.1 hprep
    exact ⟨k.2, _, d, hK hs _ List.mem_cons_self, hd, (List.forall_mem_cons.1 hC).2,
      Plan.reaches_filter hreach⟩
  | project _ c =>
    obtain rfl := List.mem_singleton.1 hi
    obtain ⟨d, q, u, hd, -, rfl⟩ := Wrapped.prepare_eq_ok.1 hprep
    exact ⟨k.2, _, d, hK hs _ List.mem_cons_self, hd, (List.forall_mem_cons.1 hC).2,
      Plan.reaches_project hreach⟩
  | rename _ c =>
    obtain rfl := List.mem_singleton.1 hi
    obtain ⟨d, q, u, hd, -, rfl⟩ := Wrapped.prepare_eq_ok.1 hprep
    exact ⟨k.2, _, d, hK hs _ List.mem_cons_self, hd, (List.forall_mem_cons.1 hC).2,
      Plan.reaches_rename hreach⟩
  | barrier c =>
    obtain rfl := List.mem_singleton.1 hi
    obtain ⟨d, q, u, hd, -, rfl⟩ := Wrapped.prepare_eq_ok.1 hprep
    exact ⟨k.2, _, d, hK hs _ List.mem_cons_self, hd, (List.forall_mem_cons.1 hC).2,
      Plan.reaches_barrier hreach⟩
  | sort _ c =>
    obtain rfl := List.mem_singleton.1 hi
    obtain ⟨d, q, hd, -, rfl⟩ := Buffered.prepare_eq_ok.1 hprep
    exact ⟨k.2, _, d, hK hs _ List.mem_cons_self, hd, (List.forall_mem_cons.1 hC).2,
      Plan.reaches_sort hreach⟩
  | group _ _ c =>
    obtain rfl := List.mem_singleton.1 hi
    obtain ⟨d, q, hd, -, rfl⟩ := Buffered.prepare_eq_ok.1 hprep
    exact ⟨k.2, _, d, hK hs _ List.mem_cons_self, hd, (List.forall_mem_cons.1 hC).2,
      Plan.reaches_group hreach⟩
  | limit _ _ c =>
    obtain rfl := List.mem_singleton.1 hi
    obtain ⟨d, hd, rfl⟩ := Limit.prepare_eq_ok.1 hprep
    exact ⟨k.2, _, d, hK hs _ List.mem_cons_self, hd, (List.forall_mem_cons.1 hC).2,
      Plan.reaches_limit hreach⟩
  | join _ _ _ l r =>
    obtain ⟨a, b, q, ha, hb, -, -, rfl⟩ := Join.prepare_eq_ok.1 hprep
    obtain ⟨hCl, hCr⟩ := List.forall_mem_append.1 (List.forall_mem_cons.1 hC).2
    obtain ⟨hleft, hright⟩ := Plan.reaches_join hreach
    obtain rfl | hi := List.mem_cons.1 hi
    · exact ⟨k.2.1, _, a, hK hs _ List.mem_cons_self, ha, hCl, hleft⟩
    · obtain rfl := List.mem_singleton.1 hi
      exact ⟨k.2.2, _, b, hK hs _ (List.mem_cons_of_mem _ List.mem_cons_self), hb, hCr, hright⟩

theorem nodes (h : t.Running D K C) : ∀ n ∈ t.nodes, n.Running D K C :=
  forall_nodes (fun h _ => h.of_mem_inputs hK) h

end Running

section Driven

/-- The operator at the root holds no rows. -/
def AtRest : Tree → Prop
  | ⟨.sort .., _, s⟩ => Buffered.rows s = []
  | ⟨.group .., _, s⟩ => Buffered.rows s = []
  | ⟨.join .., _, s⟩ => Join.State.progress s = .fresh ∧ Join.State.mark s = none
  | _ => True

/-- Trees as they are put together, configured, prepared and called over storages in which their
tables were opened, in any order and as often as one likes, except that `next` is called only on a
tree whose preparation succeeded. The flag tells whether it did. -/
inductive Driven : Bool → Tree → Prop
  | build {t : Tree} (ready : Tree → Bool) (hrest : t.AtRest)
      (hinputs : ∀ i ∈ t.inputs, Driven (ready i) i) : Driven false t
  | configure {b : Bool} {t : Tree} (k : t.plan.Settings) (h : Driven b t) :
      Driven b { t with settings := k }
  | swap {b : Bool} {t : Tree} (swapped : Bool) (h : Driven b t) :
      Driven false (t.setSwapped swapped)
  | prepare {b : Bool} {t : Tree} (h : Driven b t) : Driven t.prepare.1.isOk t.prepare.2
  | call {b : Bool} {t : Tree} {db : Storage} (call : Call) (hdb : t.OpenedIn db)
      (hnext : call = .next → b = true) (h : Driven b t) :
      Driven b { t with state := (t.plan.operator.call db call t.state).2 }

theorem driven_start (p : Plan) (k : p.Settings) : Driven false ⟨p, k, p.operator.start⟩ := by
  induction p with
  | scan | values => exact .build (fun _ => false) trivial fun _ h => absurd h List.not_mem_nil
  | filter _ c ih | project _ c ih | rename _ c ih | barrier c ih | limit _ _ c ih =>
    exact .build (fun _ => false) trivial (List.forall_mem_singleton.2 (ih k.2))
  | sort _ c ih | group _ _ c ih =>
    exact .build (fun _ => false) rfl (List.forall_mem_singleton.2 (ih k.2))
  | join _ _ _ l r ihl ihr =>
    exact .build (fun _ => false) ⟨rfl, rfl⟩
      (List.forall_mem_cons.2 ⟨ihl k.2.1, List.forall_mem_singleton.2 (ihr k.2.2)⟩)

theorem kept_of_inputs (hrest : t.AtRest) (h : ∀ i ∈ t.inputs, i.plan.Kept T i.state) :
    t.plan.Kept T t.state := by
  obtain ⟨p, k, s⟩ := t
  cases p with
  | scan | values => trivial
  | filter | project | rename | barrier | limit => exact (List.forall_mem_singleton.1 h :)
  | sort | group =>
    have hrows : Buffered.rows s = [] := hrest
    exact ⟨fun _ ht => absurd (hrows ▸ ht) List.not_mem_nil, h _ List.mem_cons_self⟩
  | join kind =>
    obtain ⟨hfresh, hmark⟩ : Join.State.progress s = .fresh ∧ Join.State.mark s = none := hrest
    refine ⟨⟨?_, fun m hm => ?_⟩, h _ List.mem_cons_self,
      h _ (List.mem_cons_of_mem _ List.mem_cons_self)⟩
    · exact hfresh ▸ Join.Progress.fit_fresh ..
    · exact nomatch hmark.symm.trans hm

theorem kept_setSwapped (swapped : Bool) (h : t.plan.Kept T t.state) :
    (t.setSwapped swapped).plan.Kept T (t.setSwapped swapped).state := by
  obtain ⟨p, k, s⟩ := t
  cases p <;> exact h

/-- The rows that a driven tree holds are as wide as the columns that they were given for, and it
runs once it was prepared. -/
theorem Driven.kept {b : Bool} (h : Driven b t) : t.plan.Kept Schema.Spans t.state ∧
    (b = true → t.Running t.OpenedIn (Kept Schema.Spans) fun _ => True) := by
  induction h with
  | build _ hrest _ ih => exact ⟨kept_of_inputs hrest fun i hi => (ih i hi).1, fun h => nomatch h⟩
  | configure k h ih => exact ⟨ih.1, fun hb => ⟨(ih.2 hb).opened, (ih.2 hb).prepared⟩⟩
  | swap swapped h ih => exact ⟨kept_setSwapped swapped ih.1, fun h => nomatch h⟩
  | @prepare b t h ih =>
    refine ⟨t.plan.kept_prepareWith t.settings ih.1, fun hok => ?_⟩
    obtain ⟨u, hu⟩ : ∃ u, t.prepare.1 = .ok u := by
      cases hprep : t.prepare.1 with
      | ok u => exact ⟨u, rfl⟩
      | error e => simp [hprep, Except.isOk, Except.toBool] at hok
    exact (.of_prepare ih.1 (Prod.ext hu rfl) fun _ _ => trivial :
      t.prepare.2.Running t.OpenedIn (Kept Schema.Spans) fun _ => True)
  | @call b t db call hdb hnext h ih =>
    obtain ⟨hkept, hruns⟩ := ih
    have hreach : t.plan.operator.ReachesOver t.OpenedIn t.state
        (t.plan.operator.call db call t.state).2 :=
      .of_reaches hdb (.single ⟨call, _, by cases call <;> rfl, rfl, .inl rfl⟩ :
        t.plan.operator.Reaches db .any _ _)
    refine ⟨?_, fun hb => (hruns hb).of_runs ⟨_, hreach, rfl⟩⟩
    -- Only `next` takes rows in, and it is called on what runs, which serves rows of its columns.
    by_cases hcall : call = .next
    · exact (hruns (hnext hcall)).served_wide.keeps hreach
    · exact t.plan.kept_call hcall db hkept

theorem running_nodes (hprep : t.prepare = (.ok (), t')) (hrun : t'.Runs t.OpenedIn t'') :
    ∀ n ∈ t''.nodes, n.Running t.OpenedIn (fun _ => True) fun _ => True := by
  have hruns : t'.Running t.OpenedIn (fun _ => True) fun _ => True :=
    .of_prepare trivial hprep fun _ _ => trivial
  exact (hruns.of_runs hrun).nodes fun _ _ _ => trivial

theorem Driven.running_nodes {b : Bool} (h : Driven b t) (hprep : t.prepare = (.ok (), t'))
    (hrun : t'.Runs t.OpenedIn t'') :
    ∀ n ∈ t''.nodes, n.Running t.OpenedIn (Kept Schema.Spans) fun _ => True := by
  have hruns : t'.Running t.OpenedIn (Kept Schema.Spans) fun _ => True :=
    .of_prepare h.kept.1 hprep fun _ _ => trivial
  exact (hruns.of_runs hrun).nodes Kept.inputs

theorem Driven.begun {b : Bool} {db : Storage} (hdb : t.OpenedIn db) (hprep : t.prepare.1 = .ok ())
    (h : Driven b t) : Driven true (t.prepare.2.rewind.2.next db).2 := by
  have hprepared : Driven true t.prepare.2 := by
    have hprepare := h.prepare
    rwa [hprep] at hprepare
  exact .call .next hdb (fun _ => rfl) (.call .rewind hdb (fun h => nomatch h) hprepared)

end Driven

end Tree

end RelQuery
