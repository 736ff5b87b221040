import RelQuery.Proofs.InPlace
import RelQuery.Proofs.Sorted
import RelQuery.Proofs.ValueOrder

namespace RelQuery

namespace Value

variable {S : Set Value} {a b c : Value}

theorem order_eq_iff : order a b = .eq ↔ atMost a b ∧ atMost b a := by
  rw [atMost, atMost, order_swap a b]
  cases order a b <;> decide

theorem order_lt_iff : order a b = .lt ↔ atMost a b ∧ ¬atMost b a := by
  rw [atMost, atMost, order_swap a b]
  cases order a b <;> decide

theorem TransitiveOn.lt_trans (h : TransitiveOn S) (ha : a ∈ S) (hb : b ∈ S) (hc : c ∈ S)
    (hab : order a b = .lt) (hbc : order b c = .lt) : order a c = .lt := by
  rw [order_lt_iff] at *
  exact ⟨h a ha b hb c hc hab.1 hbc.1, fun hca => hab.2 (h b hb c hc a ha hbc.1 hca)⟩

def tied (vs : List Value) (v : Value) : List Value := vs.filter fun w => w.order v == .eq

theorem mem_tied {vs : List Value} : a ∈ tied vs b ↔ a ∈ vs ∧ order a b = .eq := by
  simp [tied]

/-- Where the order is transitive, values tie if they have the same ties. -/
theorem TransitiveOn.tied_eq {vs : List Value} (h : TransitiveOn {v | v ∈ vs}) (ha : a ∈ vs)
    (hb : b ∈ vs) : tied vs a = tied vs b ↔ order a b = .eq := by
  constructor
  · intro heq
    have hself : a ∈ tied vs a := mem_tied.2 ⟨ha, order_self a⟩
    exact (mem_tied.1 (heq ▸ hself)).2
  · intro heq
    obtain ⟨hab, hba⟩ := order_eq_iff.1 heq
    refine List.filter_congr fun c hc => ?_
    rw [Bool.eq_iff_iff, beq_iff_eq, beq_iff_eq, order_eq_iff, order_eq_iff]
    exact ⟨fun hca => ⟨h c hc a ha b hb hca.1 hab, h b hb a ha c hc hba hca.2⟩,
      fun hcb => ⟨h c hc b hb a ha hcb.1 hba, h a ha b hb c hc hab hcb.2⟩⟩

end Value

namespace ColumnStats

open Value (order atMost tied TransitiveOn)

variable {vs : List Value} {v last : Value}

theorem skip_sublist (last : Value) (vs : List Value) : (heads.skip last vs).Sublist vs := by
  induction vs generalizing last with
  | nil => exact .slnil
  | cons v vs ih =>
    rw [heads.skip]
    split
    · exact (ih last).cons v
    · exact (ih v).cons_cons v

theorem heads_sublist (vs : List Value) : (heads vs).Sublist vs := by
  cases vs with
  | nil => exact .slnil
  | cons v vs => exact (skip_sublist v vs).cons_cons v

theorem exists_skip (last : Value) (hv : v ∈ vs) :
    ∃ w ∈ last :: heads.skip last vs, order v w = .eq := by
  induction vs generalizing last with
  | nil => exact absurd hv List.not_mem_nil
  | cons u vs ih =>
    rw [heads.skip]
    split
    · next htie =>
      rcases List.mem_cons.1 hv with rfl | hv
      · exact ⟨last, List.mem_cons_self, eq_of_beq htie⟩
      · exact ih last hv
    · rcases List.mem_cons.1 hv with rfl | hv
      · exact ⟨v, by simp, Value.order_self v⟩
      · obtain ⟨w, hw, htie⟩ := ih u hv
        exact ⟨w, List.mem_cons_of_mem _ hw, htie⟩

theorem exists_head (hv : v ∈ vs) : ∃ w ∈ heads vs, order v w = .eq := by
  cases vs with
  | nil => exact absurd hv List.not_mem_nil
  | cons u vs =>
    rcases List.mem_cons.1 hv with rfl | hv
    · exact ⟨v, List.mem_cons_self, Value.order_self v⟩
    · exact exists_skip u hv

section Ascending

variable {S : Set Value} (htrans : TransitiveOn S)

include htrans

theorem pairwise_skip (hS : ∀ v ∈ last :: vs, v ∈ S)
    (hsorted : (last :: vs).Pairwise fun a b => atMost a b) :
    (last :: heads.skip last vs).Pairwise fun a b => order a b = .lt := by
  induction vs generalizing last with
  | nil => exact List.pairwise_singleton ..
  | cons v vs ih =>
    obtain ⟨hlast, hrest⟩ := List.pairwise_cons.1 hsorted
    rw [heads.skip]
    split
    · have hsub : (last :: vs).Sublist (last :: v :: vs) :=
        (List.sublist_cons_self v vs).cons_cons last
      exact ih (fun u hu => hS u (hsub.subset hu)) (hsorted.sublist hsub)
    · next hne =>
      have hkept := ih (fun u hu => hS u (List.mem_cons_of_mem _ hu)) hrest
      have hlt : order last v = .lt := by
        refine Value.order_lt_iff.2 ⟨hlast v List.mem_cons_self, fun hle => hne ?_⟩
        exact beq_iff_eq.2 (Value.order_eq_iff.2 ⟨hle, hlast v List.mem_cons_self⟩)
      have hmem : ∀ w ∈ v :: heads.skip v vs, w ∈ S := fun w hw =>
        hS w (List.mem_cons_of_mem _ (((skip_sublist v vs).cons_cons v).subset hw))
      refine List.pairwise_cons.2 ⟨List.forall_mem_cons.2 ⟨hlt, fun w hw => ?_⟩, hkept⟩
      exact htrans.lt_trans (hS last List.mem_cons_self) (hmem v List.mem_cons_self)
        (hmem w (List.mem_cons_of_mem _ hw)) hlt ((List.pairwise_cons.1 hkept).1 w hw)

theorem pairwise_heads (hS : ∀ v ∈ vs, v ∈ S) (hsorted : vs.Pairwise fun a b => atMost a b) :
    (heads vs).Pairwise fun a b => order a b = .lt := by
  cases vs with
  | nil => exact List.Pairwise.nil
  | cons v vs => exact pairwise_skip htrans hS hsorted

end Ascending

/-- Some values are of each class of ties among others one, in order. -/
structure Represents (ds vs : List Value) : Prop where
  subset : ds ⊆ vs
  exists_tie : ∀ v ∈ vs, ∃ d ∈ ds, order v d = .eq
  ascending : ds.Pairwise fun a b => order a b = .lt

theorem represents_heads (htrans : TransitiveOn {v | v ∈ vs}) :
    Represents (heads (vs.mergeSort atMost)) vs where
  subset _ hv := List.mem_mergeSort.1 ((heads_sublist _).subset hv)
  exists_tie _ hv := exists_head (List.mem_mergeSort.2 hv)
  ascending := pairwise_heads htrans (fun _ hv => List.mem_mergeSort.1 hv)
    (pairwise_mergeSort_of_mem htrans Value.atMost_total)

section Represents

variable {ds : List Value} (h : Represents ds vs)

include h

theorem Represents.eq_nil_iff : ds = [] ↔ vs = [] := by
  constructor
  · rintro rfl
    refine List.eq_nil_iff_forall_not_mem.2 fun v hv => ?_
    obtain ⟨d, hd, -⟩ := h.exists_tie v hv
    exact List.not_mem_nil hd
  · rintro rfl
    exact List.subset_nil.1 h.subset

variable (htrans : TransitiveOn {v | v ∈ vs})

include htrans

theorem Represents.head_atMost (hv : ds.head? = some v) : v ∈ vs ∧ ∀ w ∈ vs, atMost v w := by
  obtain ⟨rest, rfl⟩ := List.head?_eq_some_iff.1 hv
  have hmem : v ∈ vs := h.subset List.mem_cons_self
  refine ⟨hmem, fun w hw => ?_⟩
  obtain ⟨d, hd, htie⟩ := h.exists_tie w hw
  have hdw : atMost d w := (Value.order_eq_iff.1 htie).2
  rcases List.mem_cons.1 hd with rfl | hrest
  · exact hdw
  · have hlt := (List.pairwise_cons.1 h.ascending).1 d hrest
    exact htrans v hmem d (h.subset hd) w hw (Value.order_lt_iff.1 hlt).1 hdw

theorem Represents.atMost_last (hv : ds.getLast? = some v) : v ∈ vs ∧ ∀ w ∈ vs, atMost w v := by
  obtain ⟨rest, rfl⟩ := List.getLast?_eq_some_iff.1 hv
  have hlast : v ∈ rest ++ [v] := List.mem_append_right _ (List.mem_singleton_self v)
  refine ⟨h.subset hlast, fun w hw => ?_⟩
  obtain ⟨d, hd, htie⟩ := h.exists_tie w hw
  have hwd : atMost w d := (Value.order_eq_iff.1 htie).1
  rcases List.mem_append.1 hd with hrest | hd
  · have hlt := (List.pairwise_append.1 h.ascending).2.2 d hrest v (List.mem_singleton_self v)
    exact htrans w hw d (h.subset (List.mem_append_left _ hrest)) v (h.subset hlast) hwd
      (Value.order_lt_iff.1 hlt).1
  · rwa [List.mem_singleton.1 hd] at hwd

theorem Represents.length_eq : ds.length = (vs.map (tied vs)).dedup.length := by
  have hnodup : (ds.map (tied vs)).Nodup := by
    refine List.pairwise_map.2 (h.ascending.imp_of_mem fun ha hb hlt heq => ?_)
    have htie := (htrans.tied_eq (h.subset ha) (h.subset hb)).1 heq
    simp [htie] at hlt
  have hperm : (ds.map (tied vs)).Perm (vs.map (tied vs)).dedup := by
    refine (List.perm_ext_iff_of_nodup hnodup (List.nodup_dedup _)).2 fun c => ?_
    rw [List.mem_dedup, List.mem_map, List.mem_map]
    constructor
    · rintro ⟨d, hd, rfl⟩
      exact ⟨d, h.subset hd, rfl⟩
    · rintro ⟨v, hv, rfl⟩
      obtain ⟨d, hd, htie⟩ := h.exists_tie v hv
      exact ⟨d, hd, ((htrans.tied_eq hv (h.subset hd)).2 htie).symm⟩
  rw [← hperm.length_eq, List.length_map]

end Represents

def present (vs : List Value) : List Value := vs.filter fun v => !v.isNull

/-- What the statistics of a column say of its values: the bounds of those that are not NULL, of
which one occurs for each class of ties, and how many are NULL. -/
structure Describes (stats : ColumnStats) (vs : List Value) : Prop where
  min : ∀ v, stats.min = some v → v ∈ present vs ∧ ∀ w ∈ present vs, atMost v w
  max : ∀ v, stats.max = some v → v ∈ present vs ∧ ∀ w ∈ present vs, atMost w v
  min_eq_none : stats.min = none ↔ present vs = []
  max_eq_none : stats.max = none ↔ present vs = []
  distinct : stats.distinct = some ((present vs).map (tied (present vs))).dedup.length
  nulls : stats.nulls = some (vs.countP Value.isNull)

/-- Where the order is transitive on the values of a column, its statistics describe it. -/
theorem describes_ofValues (htrans : TransitiveOn {v | v ∈ present vs}) :
    (ofValues vs).Describes vs := by
  have hheads : Represents (heads ((present vs).mergeSort atMost)) (present vs) :=
    represents_heads htrans
  have hnulls : vs.length - (present vs).length = vs.countP Value.isNull := by
    have hlength := List.length_eq_countP_add_countP Value.isNull (l := vs)
    have hpresent : (present vs).length = vs.countP fun v => !v.isNull :=
      List.countP_eq_length_filter.symm
    simp only [Bool.not_eq_true, Bool.decide_eq_false] at hlength
    omega
  exact {
    min := fun _ => hheads.head_atMost htrans
    max := fun _ => hheads.atMost_last htrans
    min_eq_none := List.head?_eq_none_iff.trans hheads.eq_nil_iff
    max_eq_none := List.getLast?_eq_none_iff.trans hheads.eq_nil_iff
    distinct := congrArg some (hheads.length_eq htrans)
    nulls := congrArg some hnulls }

end ColumnStats

/-- The values that fit a type, but for what is not a number, are in a transitive order. -/
theorem SqlType.transitiveOn_of_fits {t : SqlType} {S : Set Value} (hfits : ∀ v ∈ S, t.Fits v)
    (hnumber : ∀ x, .float x ∈ S → (Double.place? x).isSome) : Value.TransitiveOn S := by
  -- No type has both doubles and integers.
  have hkind : ∀ {x i}, .float x ∈ S → .int i ∉ S := by
    intro x i hx hi
    have hx := hfits _ hx
    have hi := hfits _ hi
    cases t <;> simp [Fits] at hx hi
  have hplace : ∀ {x}, .float x ∈ S → Double.place? x ≠ none := fun hx hnone => by
    simpa [hnone] using hnumber _ hx
  apply Value.Orderly.transitiveOn
  exact {
    apart := fun hx hi => absurd hi (hkind hx)
    single := fun hn hnone => absurd hnone (hplace hn)
    before := fun hn hnone => absurd hnone (hplace hn) }

/-- What the statistics of a table say of its rows. Each row has a value for each of the columns. -/
structure TableStats.Describes (stats : TableStats) (width pages : Nat) (rows : List Row) :
    Prop where
  tuples : stats.tuples = rows.length
  pages : stats.pages = pages
  width : stats.columns.length = width
  columns : ∀ (i : Nat) (column : ColumnStats), stats.columns[i]? = some column →
    ∃ vs : List Value, rows.map (·[i]?) = vs.map some ∧ column.Describes vs

namespace Table

variable {t : Table}

theorem liveRows_eq (t : Table) (size : Nat) :
    t.liveRows = (t.ledger.entries size).map Prod.snd := by
  have hslots : t.ledger.slots.zipIdx.map Prod.fst = t.pages.flatten := List.zipIdx_map_fst ..
  have hrow : (fun s : Option Row × Nat => (s.1.map fun r =>
      (Location.numbered size t.ledger.name s.2, r)).map Prod.snd) = id ∘ Prod.fst := by
    funext ⟨contents, k⟩
    cases contents <;> rfl
  rw [Ledger.entries, List.map_filterMap, hrow, ← List.filterMap_map, hslots,
    List.filterMap_flatten]
  rfl

theorem Live.mem_liveRows {P : Schema → Row → Prop} (h : t.Live P) {r : Row}
    (hr : r ∈ t.liveRows) : P t.schema r := by
  obtain ⟨p, hp, hr⟩ := List.mem_flatMap.1 hr
  obtain ⟨s, hs, rfl⟩ := List.mem_filterMap.1 hr
  exact h p hp r hs

/-- An analysis describes the rows of a table that fit its columns and have numbers only. -/
theorem describes_measure (hfits : t.Live Schema.Fits)
    (hnumber : ∀ r ∈ t.liveRows, ∀ x, .float x ∈ r → (Double.place? x).isSome) :
    t.measure.Describes t.schema.width t.pages.length t.liveRows where
  tuples := rfl
  pages := rfl
  width := by simp [measure]
  columns i column hcolumn := by
    obtain ⟨j, hj, rfl⟩ := Option.map_eq_some_iff.1 (List.getElem?_map.symm.trans hcolumn)
    obtain ⟨hi, rfl⟩ := List.getElem?_eq_some_iff.1 hj
    rw [List.length_range] at hi
    rw [List.getElem_range]
    have hvalue : ∀ r ∈ t.liveRows, ∃ v, r[i]? = some v ∧
        (v = .null ∨ t.schema.columns[i].type.Fits v) := fun r hr => by
      have hrow : t.schema.Fits r := hfits.mem_liveRows hr
      have hlt : i < r.length := hrow.length_eq ▸ hi
      exact ⟨r[i], List.getElem?_eq_getElem hlt, hrow.get hi hlt⟩
    have hpresent : ∀ {v}, v ∈ ColumnStats.present (t.liveRows.filterMap (·[i]?)) →
        (∃ r ∈ t.liveRows, v ∈ r) ∧ t.schema.columns[i].type.Fits v := by
      intro v hv
      obtain ⟨hv, hnull⟩ := List.mem_filter.1 hv
      obtain ⟨r, hr, hri⟩ := List.mem_filterMap.1 hv
      obtain ⟨w, hw, hfit⟩ := hvalue r hr
      obtain rfl := Option.some.inj (hri.symm.trans hw)
      refine ⟨⟨r, hr, List.mem_of_getElem? hri⟩, hfit.resolve_left ?_⟩
      rintro rfl
      exact Bool.false_ne_true hnull
    refine ⟨_, ?_, ColumnStats.describes_ofValues (SqlType.transitiveOn_of_fits
      (fun v hv => (hpresent hv).2) fun x hx => ?_)⟩
    · have hcolumn : t.liveRows.filterMap (·[i]?) = t.liveRows.map fun r => r[i]?.getD .null := by
        rw [← List.filterMap_eq_map]
        refine List.filterMap_congr fun r hr => ?_
        obtain ⟨v, hv, -⟩ := hvalue r hr
        rw [Function.comp_apply, hv, Option.getD_some]
      rw [hcolumn, List.map_map]
      refine List.map_congr_left fun r hr => ?_
      obtain ⟨v, hv, -⟩ := hvalue r hr
      rw [Function.comp_apply, hv, Option.getD_some]
    · obtain ⟨⟨r, hr, hmem⟩, -⟩ := hpresent hx
      exact hnumber r hr x hmem

end Table

namespace Storage

variable {s s' : Storage} {c : Change} {place : Option Location} {name : String} {t t' : Table}

theorem Writes.find?_eq {u : Table} {l : Location} {old new : Option (Option Row)}
    (h : s.Writes s' u l old new) : ∃ pages, ∀ name,
      s'.find? name = if name = l.table then some { u with pages := pages } else s.find? name := by
  obtain ⟨-, -, hsame, u', hu', -, hbut⟩ := h
  refine ⟨u'.pages, fun name => ?_⟩
  split
  · next heq => rw [heq, hu', ← hbut.frame]
  · next hne => exact hsame.find?_eq name hne

/-- A change other than an analysis of it leaves a table with all but its pages. -/
theorem Effect.find?_eq_some (h : s.Effect s' place c) (hc : c ≠ .analyze name)
    (ht : s.find? name = some t) : ∃ pages, s'.find? name = some { t with pages := pages } := by
  have hwrites : ∀ {u l old new}, s.Writes s' u l old new →
      ∃ pages, s'.find? name = some { t with pages := pages } := by
    intro u l old new hw
    obtain ⟨pages, hpages⟩ := hw.find?_eq
    rw [hpages]
    by_cases heq : name = l.table
    · obtain rfl := Option.some.inj (ht.symm.trans (heq ▸ hw.1))
      exact ⟨pages, if_pos heq⟩
    · exact ⟨t.pages, (if_neg heq).trans ht⟩
  cases c with
  | createTable name' columns =>
    obtain ⟨-, hnone, hsame, -⟩ := h
    have hne : name ≠ name' := by
      rintro rfl
      simp [hnone] at ht
    exact ⟨t.pages, (hsame.find?_eq name hne).trans ht⟩
  | insert name' r =>
    obtain ⟨l, u, row, -, -, -, hw⟩ := h
    exact hwrites hw
  | update l r =>
    obtain ⟨-, u, old, row, -, hw⟩ := h
    exact hwrites hw
  | delete l =>
    obtain ⟨-, u, old, hw⟩ := h
    exact hwrites hw
  | analyze name' =>
    obtain ⟨-, hsame, -⟩ := h
    have hne : name ≠ name' := by
      rintro rfl
      exact hc rfl
    exact ⟨t.pages, (hsame.find?_eq name hne).trans ht⟩

theorem Effect.stats_eq_none (h : s.Effect s' place c) (hnone : s.find? name = none)
    (ht' : s'.find? name = some t') : t'.stats = none := by
  have hwrites : ∀ {u l old new}, ¬s.Writes s' u l old new := by
    intro u l old new hw
    obtain ⟨pages, hpages⟩ := hw.find?_eq
    rw [hpages] at ht'
    by_cases heq : name = l.table
    · simp [heq, hw.1] at hnone
    · simp [heq, hnone] at ht'
  cases c with
  | createTable name' columns =>
    obtain ⟨-, -, hsame, hnew⟩ := h
    by_cases heq : name = name'
    · obtain rfl := Option.some.inj ((heq ▸ hnew).symm.trans ht')
      rfl
    · simp [hsame.find?_eq name heq, hnone] at ht'
  | insert name' r =>
    obtain ⟨l, u, row, -, -, -, hw⟩ := h
    exact absurd hw hwrites
  | update l r =>
    obtain ⟨-, u, old, row, -, hw⟩ := h
    exact absurd hw hwrites
  | delete l =>
    obtain ⟨-, u, old, hw⟩ := h
    exact absurd hw hwrites
  | analyze name' =>
    obtain ⟨-, hsame, u, hu, -⟩ := h
    have hne : name ≠ name' := by
      rintro rfl
      simp [hnone] at hu
    simp [hsame.find?_eq name hne, hnone] at ht'

theorem openTable_eq_of_find? (ht : s.find? name = some t) :
    s.openTable name = .ok ⟨t.name, t.schema, t.currentStats⟩ :=
  openTable_eq_ok.2 ⟨t, table_eq_ok.2 ht, rfl⟩

theorem openTable_changes {info : TableInfo} (hinfo : s.openTable name = .ok info)
    (cs : List Change) (hcs : .analyze name ∉ cs) : (s.changes cs).2.openTable name = .ok info := by
  induction cs generalizing s with
  | nil => exact hinfo
  | cons c cs ih =>
    have hc : c ≠ .analyze name := by
      rintro rfl
      exact hcs List.mem_cons_self
    have hstep : (Change.settle attempt s c).2.openTable name = .ok info := by
      unfold Change.settle
      split
      · next place s' hattempt =>
        obtain ⟨t, ht, rfl⟩ := openTable_eq_ok.1 hinfo
        obtain ⟨pages, hpages⟩ :=
          (effect_of_attempt hattempt).find?_eq_some hc (table_eq_ok.1 ht)
        have hopen := openTable_eq_of_find? hpages
        exact hopen
      · exact hinfo
    exact ih hstep fun hmem => hcs (List.mem_cons_of_mem _ hmem)

theorem stats_changes_eq_none (hs : ∀ t, s.find? name = some t → t.stats = none) (cs : List Change)
    (hcs : ∀ r, (.analyze name, .ok r) ∉ (s.changes cs).1) :
    ∀ t, (s.changes cs).2.find? name = some t → t.stats = none := by
  induction cs generalizing s with
  | nil => exact hs
  | cons c cs ih =>
    have hstep : ∀ t, (Change.settle attempt s c).2.find? name = some t → t.stats = none := by
      have hc : ∀ r, (c, (Change.settle attempt s c).1) ≠ (.analyze name, .ok r) := fun r heq =>
        hcs r (List.mem_cons.2 (.inl heq.symm))
      unfold Change.settle at hc ⊢
      split at hc
      · next place s' hattempt =>
        have heffect := effect_of_attempt hattempt
        have hne : c ≠ .analyze name := by
          rintro rfl
          exact hc place rfl
        intro t' ht'
        cases ht : s.find? name with
        | none => exact heffect.stats_eq_none ht ht'
        | some t =>
          obtain ⟨pages, hpages⟩ := heffect.find?_eq_some hne ht
          obtain rfl := Option.some.inj (hpages.symm.trans ht')
          exact hs t ht
      · exact hs
    exact ih hstep fun r hmem => hcs r (List.mem_cons_of_mem _ hmem)

/-- An analysis counts the rows and the pages of a table, and describes the values of each column.
What it returns is what the table is opened with, until the table is analysed again. A table that
was never analysed is opened with statistics that say nothing. -/
theorem analyze_snapshot {size : Nat} {cs : List Change} {h : History} {db : Storage}
    (hrun : (create size).changes cs = (h, db)) (name : String) :
    (∀ t, db.find? name = some t →
      (∀ e ∈ db.entries name, ∀ x, .float x ∈ e.2 → (Double.place? x).isSome) →
      ∃ stats db', db.analyze name = .ok (stats, db') ∧
        stats.Describes t.schema.width t.pages.length ((db.entries name).map Prod.snd) ∧
        ∀ later, .analyze name ∉ later →
          (db'.changes later).2.openTable name = .ok ⟨name, t.schema, stats⟩) ∧
      ∀ info, db.openTable name = .ok info → (∀ r, (.analyze name, .ok r) ∉ h) →
        info.stats = ⟨0, 0, 0.0, List.replicate info.schema.width ⟨none, none, none, none⟩⟩ := by
  have hbuilt : db.Built := by
    have hchanges := (Built.create size).changes cs
    rwa [hrun] at hchanges
  constructor
  · intro t ht hnumber
    have htable := table_eq_ok.2 ht
    have hname := name_of_table htable
    have hrows : t.liveRows = (db.entries name).map Prod.snd := by
      rw [entries, ht, Option.map_some, Option.getD_some]
      exact t.liveRows_eq db.rowsPerPage
    have hdescribes := Table.describes_measure
      (hbuilt.live Table.fits_of_coerceRow t (mem_of_table htable)) fun r hr x hx => by
        rw [hrows] at hr
        obtain ⟨e, he, rfl⟩ := List.mem_map.1 hr
        exact hnumber e he x hx
    rw [hrows] at hdescribes
    let measured : Table := { t with stats := some t.measure }
    have hput : (db.put measured).find? name = some measured :=
      (find?_put (show db.find? measured.name = some t from hname ▸ ht) name).trans
        (if_pos hname.symm)
    refine ⟨t.measure, db.put measured, ?_, hdescribes, fun later hlater => ?_⟩
    · simp [Storage.analyze, htable, bind, Except.bind, measured]
    · have hopen := openTable_changes (openTable_eq_of_find? hput) later hlater
      rwa [show measured.name = name from hname] at hopen
  · intro info hinfo hnever
    obtain ⟨t, ht, rfl⟩ := openTable_eq_ok.1 hinfo
    have hempty : ∀ t, (create size).find? name = some t → t.stats = none := by
      simp [create, Storage.find?]
    have hstats := stats_changes_eq_none hempty cs (by rwa [hrun])
    rw [hrun] at hstats
    have hnone := hstats t (table_eq_ok.1 ht)
    simp only [Table.currentStats, hnone]
    rfl

/-- Two values that tie, one that is NULL and one that was deleted, and an insert after the
analysis. -/
theorem analyze_snapshot_insert :
    let columns : List (String × SqlType) := [("a", .integer)]
    let cs : List Change := [.createTable "t" columns, .insert "t" [.int 2], .insert "t" [.int 1],
      .insert "t" [.null], .insert "t" [.int 2], .delete ⟨"t", 0, 1⟩]
    ∃ stats db', ((create 2).changes cs).2.analyze "t" = .ok (stats, db') ∧
      stats.tuples = 3 ∧ stats.pages = 2 ∧
      (∃ column, stats.columns[0]? = some column ∧ column.distinct = some 1 ∧
        column.nulls = some 1) ∧
      (db'.changes [.insert "t" [.int 5]]).2.openTable "t" =
        .ok ⟨"t", ⟨[⟨"a", some "t", .integer⟩]⟩, stats⟩ := by
  intro columns cs
  let t : Table := { Table.create "t" columns 2 with
    pages := [[some [.int 2], none], [some [.null], some [.int 2]]] }
  have hrun : (create 2).changes cs = (((create 2).changes cs).1, ⟨2, [t]⟩) := rfl
  have hentries : (⟨2, [t]⟩ : Storage).entries "t" =
      [(⟨"t", 0, 0⟩, [.int 2]), (⟨"t", 1, 0⟩, [.null]), (⟨"t", 1, 1⟩, [.int 2])] := by
    simp [entries, Storage.find?, t, Table.create, Table.ledger, Ledger.entries, Location.numbered,
      List.zipIdx_cons]
  obtain ⟨hanalyze, -⟩ := analyze_snapshot hrun "t"
  obtain ⟨stats, db', hok, hdescribes, hlater⟩ := hanalyze t rfl (by simp [hentries])
  rw [hentries] at hdescribes
  have hwidth : stats.columns.length = 1 := hdescribes.width
  refine ⟨stats, db', hok, hdescribes.tuples, hdescribes.pages, ⟨stats.columns[0], ?_, ?_⟩,
    hlater [.insert "t" [.int 5]] (by simp)⟩
  · simp
  · obtain ⟨vs, hvs, hcolumn⟩ := hdescribes.columns 0 stats.columns[0] (by simp)
    obtain rfl : [.int 2, .null, .int 2] = vs :=
      List.map_injective_iff.2 (Option.some_injective _) hvs
    exact ⟨hcolumn.distinct.trans (by decide), hcolumn.nulls⟩

end Storage

end RelQuery
