import RelQuery.Pins.Counts
import RelQuery.Proofs.LedgerChanges

namespace RelQuery

theorem Page.firstFrom_lt {n slot m i : Nat} {ps : List Page} {r : Row}
    (h : Page.firstFrom n slot ps = some (m, i, r)) : m < n + ps.length := by
  induction ps generalizing n slot with
  | nil => simp [Page.firstFrom] at h
  | cons p ps ih =>
    rw [Page.firstFrom] at h
    rw [List.length_cons]
    split at h
    · obtain ⟨rfl, -⟩ := Prod.mk.inj (Option.some.inj h)
      omega
    · have hlt := ih h
      omega

theorem Page.length_append (capacity : Nat) (row : Row) (ps : List Page) :
    ps.length ≤ (Page.append capacity row ps).1.length := by
  fun_induction Page.append capacity row ps <;> grind

theorem Table.Edit.grows {t u : Table} (h : t.Edit u) :
    u.name = t.name ∧ u.schema = t.schema ∧ t.pages.length ≤ u.pages.length := by
  cases h with
  | insert h =>
    obtain ⟨row, -, -, rfl⟩ := Table.insert_eq_ok.1 h
    exact ⟨rfl, rfl, Page.length_append ..⟩
  | replace h =>
    obtain ⟨-, rfl⟩ := Table.replace_eq_ok.1 h
    exact ⟨rfl, rfl, by simp⟩
  | analyze => exact ⟨rfl, rfl, Nat.le_refl _⟩

namespace Storage

variable {db db' : Storage} {t u : Table}

theorem mem_pageIds {p : PageId} :
    p ∈ db.pageIds ↔ ∃ t ∈ db.tables, t.name = p.table ∧ p.page < t.pages.length := by
  obtain ⟨table, page⟩ := p
  simp only [pageIds, List.mem_flatMap, List.mem_map, List.mem_range, PageId.mk.injEq]
  constructor
  · rintro ⟨t, ht, n, hn, hname, rfl⟩
    exact ⟨t, ht, hname, hn⟩
  · rintro ⟨t, ht, hname, hn⟩
    exact ⟨t, ht, page, hn, hname, rfl⟩

theorem mem_pageIds_of_readFrom {table : String} {page slot : Nat} {t : Tuple}
    (h : db.readFrom table page slot = some t) {p : PageId} (hp : t.pin? = some p) :
    p ∈ db.pageIds := by
  obtain ⟨u, hu, hread⟩ := Option.bind_eq_some_iff.1 h
  obtain ⟨⟨n, i, r⟩, hfirst, rfl⟩ := Option.map_eq_some_iff.1 hread
  obtain rfl : (⟨u.name, n⟩ : PageId) = p := Option.some.inj hp
  have hlt := Page.firstFrom_lt hfirst
  rw [List.length_drop] at hlt
  -- a page behind the last one has no row, so the page that was asked for exists
  have hpage : n < u.pages.length := by
    by_contra hge
    have hnil : u.pages.drop page = [] := List.drop_eq_nil_of_le (by omega)
    rw [hnil] at hfirst
    simp [Page.firstFrom] at hfirst
  exact mem_pageIds.2 ⟨u, List.mem_of_find?_eq_some hu, rfl, hpage⟩

theorem Paged.nodup_pageIds (h : db.Paged) : db.pageIds.Nodup := by
  rw [pageIds, List.nodup_flatMap]
  constructor
  · intro t _
    exact List.nodup_range.map fun m n hmn => (PageId.mk.inj hmn).2
  · have hnames := h.names
    rw [List.Nodup, List.pairwise_map] at hnames
    apply hnames.imp
    intro t u hne p hp hp'
    obtain ⟨m, -, rfl⟩ := List.mem_map.1 hp
    obtain ⟨n, -, heq⟩ := List.mem_map.1 hp'
    exact hne (PageId.mk.inj heq).1.symm

theorem Paged.pageIds_put (h : db.Paged) (hu : u ∈ db.tables) (hname : t.name = u.name)
    (hpages : u.pages.length ≤ t.pages.length) : db.pageIds ⊆ (db.put t).pageIds := by
  intro p hp
  obtain ⟨v, hv, hvname, hpage⟩ := mem_pageIds.1 hp
  refine mem_pageIds.2 ⟨if v.name == t.name then t else v, List.mem_map.2 ⟨v, hv, rfl⟩, ?_⟩
  split
  · next heq =>
    have hvu : v = u := List.inj_on_of_nodup_map h.names hv hu ((eq_of_beq heq).trans hname)
    subst hvu
    exact ⟨hname.trans hvname, Nat.lt_of_lt_of_le hpage hpages⟩
  · exact ⟨hvname, hpage⟩

theorem Paged.pageIds_attempt {c : Change} {place : Option Location} (h : db.Paged)
    (hc : db.attempt c = .ok (place, db')) : db.pageIds ⊆ db'.pageIds := by
  obtain ⟨name, columns, hcreate⟩ | ⟨t, ht, u, hedit, rfl⟩ := attempt_edits hc
  · obtain ⟨-, rfl⟩ := createTable_eq_ok.1 hcreate
    intro p hp
    obtain ⟨t, ht, hpage⟩ := mem_pageIds.1 hp
    exact mem_pageIds.2 ⟨t, List.mem_append_left _ ht, hpage⟩
  · obtain ⟨hname, -, hpages⟩ := hedit.grows
    exact h.pageIds_put ht hname hpages

end Storage

end RelQuery
