import RelQuery.Proofs.Nodes

namespace RelQuery.Expr

section Ways

/-- A step on the way around an expression. -/
inductive Turn
  | down (e : Expr)
  | up (e : Expr)

/-- The way around an expression: down to it, around its parts, and up from it. -/
def tour (e : Expr) : List Turn :=
  .down e :: ((e.children.attach.flatMap fun c => tour c.1) ++ [.up e])
termination_by e
decreasing_by exact sizeOf_lt_of_mem_children c.2

def preorder (e : Expr) : List Expr := e :: e.children.attach.flatMap fun c => preorder c.1
termination_by e
decreasing_by exact sizeOf_lt_of_mem_children c.2

def postorder (e : Expr) : List Expr := (e.children.attach.flatMap fun c => postorder c.1) ++ [e]
termination_by e
decreasing_by exact sizeOf_lt_of_mem_children c.2

theorem tour_eq (e : Expr) : e.tour = .down e :: (e.children.flatMap tour ++ [.up e]) := by
  rw [tour]
  simp only [List.flatMap_subtype, List.unattach_attach]

theorem preorder_eq (e : Expr) : e.preorder = e :: e.children.flatMap preorder := by
  rw [preorder]
  simp only [List.flatMap_subtype, List.unattach_attach]

theorem postorder_eq (e : Expr) : e.postorder = e.children.flatMap postorder ++ [e] := by
  rw [postorder]
  simp only [List.flatMap_subtype, List.unattach_attach]

def Turn.down? : Turn → Option Expr
  | down e => some e
  | up _ => none

def Turn.up? : Turn → Option Expr
  | down _ => none
  | up e => some e

theorem downs_tour (e : Expr) : e.tour.filterMap Turn.down? = e.preorder := by
  induction e using children_induction with
  | step e ih =>
    have hparts : (e.children.flatMap tour).filterMap Turn.down? = e.children.flatMap preorder := by
      rw [List.filterMap_flatMap, List.flatMap_congr ih]
    rw [tour_eq, preorder_eq, ← hparts]
    simp [List.filterMap_cons, Turn.down?]

theorem ups_tour (e : Expr) : e.tour.filterMap Turn.up? = e.postorder := by
  induction e using children_induction with
  | step e ih =>
    have hparts : (e.children.flatMap tour).filterMap Turn.up? = e.children.flatMap postorder := by
      rw [List.filterMap_flatMap, List.flatMap_congr ih]
    rw [tour_eq, postorder_eq, ← hparts]
    simp [List.filterMap_cons, Turn.up?]

end Ways

section Noting

variable {σ ε α β γ ι : Type}

/-- Computations that have a state and may fail. -/
abbrev Stateful (σ ε : Type) := ExceptT ε (StateM σ)

/-- Notes a call with its answer, behind those before it. -/
def noting (note : Except ε α → ι) (x : Stateful σ ε α) : Stateful (σ × List ι) ε α :=
  ExceptT.mk fun s => ((x.run.run s.1).1, (x.run.run s.1).2, s.2 ++ [note (x.run.run s.1).1])

/-- The one computation does what the other does, and this is true of what it notes. -/
def Notes (x : Stateful (σ × List ι) ε α) (y : Stateful σ ε α)
    (P : List ι → Except ε α → Prop) : Prop :=
  ∀ s log, ∃ calls, x.run.run (s, log) = ((y.run.run s).1, (y.run.run s).2, log ++ calls) ∧
    P calls (y.run.run s).1

variable {x : Stateful (σ × List ι) ε α} {y : Stateful σ ε α} {P P' : List ι → Except ε α → Prop}

theorem Notes.imp (h : Notes x y P) (hP : ∀ calls r, P calls r → P' calls r) : Notes x y P' :=
  fun s log => (h s log).imp fun calls h => ⟨h.1, hP calls _ h.2⟩

theorem notes_pure (a : α) : Notes (pure a : Stateful (σ × List ι) ε α) (pure a)
    fun calls r => calls = [] ∧ r = .ok a :=
  fun s log => ⟨[], by rw [List.append_nil]; rfl, rfl, rfl⟩

theorem notes_noting (note : Except ε α → ι) (y : Stateful σ ε α) :
    Notes (noting note y) y fun calls r => calls = [note r] :=
  fun _ _ => ⟨_, rfl, rfl⟩

/-- What is noted of two computations in a row: the first fails, or the calls of the second come
behind those of the first. -/
theorem Notes.bind {f : α → Stateful (σ × List ι) ε β} {g : α → Stateful σ ε β}
    {Q : α → List ι → Except ε β → Prop} (hx : Notes x y P) (hf : ∀ a, Notes (f a) (g a) (Q a)) :
    Notes (x >>= f) (y >>= g) fun calls r => (∃ e, r = .error e ∧ P calls (.error e)) ∨
      ∃ first a rest, calls = first ++ rest ∧ P first (.ok a) ∧ Q a rest r := by
  intro s log
  obtain ⟨first, hrun, hP⟩ := hx s log
  simp only [ExceptT.run_bind, StateT.run_bind, hrun]
  rcases hy : y.run.run s with ⟨e | a, s'⟩ <;> rw [hy] at hP
  · exact ⟨first, rfl, .inl ⟨e, rfl, hP⟩⟩
  · obtain ⟨rest, hrest, hQ⟩ := hf a s' (log ++ first)
    refine ⟨first ++ rest, ?_, .inr ⟨first, a, rest, rfl, hP, hQ⟩⟩
    rw [← List.append_assoc]
    exact hrest

/-- The elements of a list one after the other, up to the first that fails. -/
inductive Through (P : α → List ι → Except ε β → Prop) :
    List α → List ι → Except ε (List β) → Prop
  | nil : Through P [] [] (.ok [])
  | cons {a as first rest b r} : P a first (.ok b) → Through P as rest r →
      Through P (a :: as) (first ++ rest) (r.map (b :: ·))
  | fails {a as calls e} : P a calls (.error e) → Through P (a :: as) calls (.error e)

theorem Through.length_eq {P : α → List ι → Except ε β → Prop} {as : List α} {calls : List ι}
    {bs : List β} (h : Through P as calls (.ok bs)) : bs.length = as.length := by
  generalize hr : Except.ok bs = r at h
  induction h generalizing bs with
  | nil =>
    obtain rfl := Except.ok.inj hr
    rfl
  | @cons _ _ _ _ _ r _ _ ih =>
    cases r with
    | error e => exact absurd hr (by simp [Except.map])
    | ok bs' =>
      rw [Except.ok.inj hr, List.length_cons, List.length_cons, ih rfl]
  | fails => exact absurd hr (by simp)

theorem notes_mapM {as : List α} {f : α → Stateful (σ × List ι) ε β} {g : α → Stateful σ ε β}
    {P : α → List ι → Except ε β → Prop} (h : ∀ a ∈ as, Notes (f a) (g a) (P a)) :
    Notes (as.mapM f) (as.mapM g) (Through P as) := by
  induction as with
  | nil =>
    refine (notes_pure []).imp ?_
    rintro _ _ ⟨rfl, rfl⟩
    exact .nil
  | cons a as ih =>
    obtain ⟨ha, has⟩ := List.forall_mem_cons.1 h
    rw [List.mapM_cons, List.mapM_cons]
    refine (ha.bind fun b => (ih has).bind fun bs => notes_pure (b :: bs)).imp ?_
    rintro calls r (⟨e, rfl, hP⟩ | ⟨first, b, rest, rfl, hP, hrest⟩)
    · exact .fails hP
    · rcases hrest with ⟨e, rfl, hrest⟩ | ⟨rest, bs, _, rfl, hrest, rfl, rfl⟩
      · exact .cons hP hrest
      · rw [List.append_nil]
        exact .cons hP hrest

end Noting

section Visits

variable {σ ε : Type}

/-- A call of a visitor, with the node that is handed over and the answer. -/
inductive Visit (ε : Type)
  | entered (e : Expr) (answer : Except ε Unit)
  | left (e : Expr) (answer : Except ε Expr)

def Visit.entered? : Visit ε → Option Expr
  | entered e _ => some e
  | left .. => none

def Visit.left? : Visit ε → Option Expr
  | entered .. => none
  | left e _ => some e

/-- Calls along a way, up to the first that fails. What came of nodes that were left lies on a
stack, the last one on top, until their parent is built again from it and left in its turn. -/
inductive Follows : List Turn → List Expr → List (Visit ε) → Except ε (List Expr) → Prop
  | done {stack} : Follows [] stack [] (.ok stack)
  | down {x way stack calls r} : Follows way stack calls r →
      Follows (.down x :: way) stack (.entered x (.ok ()) :: calls) r
  | refused {x way stack e} : Follows (.down x :: way) stack [.entered x (.error e)] (.error e)
  | up {x y z way stack calls r} : y.label = x.label → y.children.length = x.children.length →
      Follows way (z :: stack) calls r →
      Follows (.up x :: way) (y.children.reverse ++ stack) (.left y (.ok z) :: calls) r
  | dropped {x y way stack e} : y.label = x.label → y.children.length = x.children.length →
      Follows (.up x :: way) (y.children.reverse ++ stack) [.left y (.error e)] (.error e)

variable {way way' : List Turn} {stack stack' : List Expr} {calls calls' : List (Visit ε)}
  {r : Except ε (List Expr)} {e : ε}

theorem Follows.append (h : Follows way stack calls (.ok stack'))
    (h' : Follows way' stack' calls' r) : Follows (way ++ way') stack (calls ++ calls') r := by
  generalize hs : Except.ok stack' = s at h
  induction h with
  | done =>
    obtain rfl := Except.ok.inj hs
    exact h'
  | down _ ih => exact .down (ih hs)
  | up hlabel hlength _ ih => exact .up hlabel hlength (ih hs)
  | refused | dropped => exact absurd hs (by simp)

theorem Follows.append_error (h : Follows way stack calls (.error e)) (way' : List Turn) :
    Follows (way ++ way') stack calls (.error e) := by
  generalize hs : (Except.error e : Except ε (List Expr)) = s at h
  induction h with
  | done => exact absurd hs (by simp)
  | down _ ih => exact .down (ih hs)
  | up hlabel hlength _ ih => exact .up hlabel hlength (ih hs)
  | refused => exact .refused
  | dropped hlabel hlength => exact .dropped hlabel hlength

/-- Calls go around an expression, and what comes of it is put on the stack. -/
def Rounds (x : Expr) (calls : List (Visit ε)) (r : Except ε Expr) : Prop :=
  ∀ stack, Follows x.tour stack calls (r.map (· :: stack))

theorem Follows.of_through {xs : List Expr} {rs : Except ε (List Expr)}
    (h : Through Rounds xs calls rs) (stack : List Expr) :
    Follows (xs.flatMap tour) stack calls (rs.map fun zs => zs.reverse ++ stack) := by
  induction h generalizing stack with
  | nil => exact .done
  | @cons x xs first rest z rs hx _ ih =>
    have hrest := ih (z :: stack)
    have hr : (rs.map (z :: ·)).map (fun zs => zs.reverse ++ stack) =
        rs.map fun zs => zs.reverse ++ z :: stack := by
      cases rs <;> simp [Except.map]
    rw [List.flatMap_cons, hr]
    exact (hx stack).append hrest
  | fails hx => exact (hx stack).append_error _

theorem Follows.left_withParts {x : Expr} {zs : List Expr} (h : zs.length = x.children.length)
    (stack : List Expr) (r : Except ε Expr) :
    Follows [.up x] (zs.reverse ++ stack) [.left (x.withParts zs) r] (r.map (· :: stack)) := by
  have hchildren := children_withParts h
  have hlength : (x.withParts zs).children.length = x.children.length := by rw [hchildren, h]
  rw [← congrArg List.reverse hchildren]
  cases r with
  | error e => exact .dropped (label_withParts x zs) hlength
  | ok z => exact .up (label_withParts x zs) hlength .done

theorem Follows.order (h : Follows way stack calls r) :
    calls.filterMap Visit.entered? <+: way.filterMap Turn.down? ∧
      (calls.filterMap Visit.left?).map label <+: (way.filterMap Turn.up?).map label := by
  induction h with
  | done => exact ⟨List.prefix_rfl, List.prefix_rfl⟩
  | down _ ih => exact ⟨List.cons_prefix_cons.2 ⟨rfl, ih.1⟩, ih.2⟩
  | refused => exact ⟨List.cons_prefix_cons.2 ⟨rfl, List.nil_prefix⟩, List.nil_prefix⟩
  | up hlabel _ _ ih => exact ⟨ih.1, List.cons_prefix_cons.2 ⟨hlabel, ih.2⟩⟩
  | dropped hlabel => exact ⟨List.nil_prefix, List.cons_prefix_cons.2 ⟨hlabel, List.nil_prefix⟩⟩

theorem Follows.complete (h : Follows way stack calls (.ok stack')) :
    calls.filterMap Visit.entered? = way.filterMap Turn.down? ∧
      (calls.filterMap Visit.left?).map label = (way.filterMap Turn.up?).map label := by
  generalize hs : Except.ok stack' = s at h
  induction h with
  | done => exact ⟨rfl, rfl⟩
  | @down x _ _ _ _ _ ih => exact ⟨congrArg (x :: ·) (ih hs).1, (ih hs).2⟩
  | up hlabel _ _ ih => exact ⟨(ih hs).1, congrArg₂ List.cons hlabel (ih hs).2⟩
  | refused | dropped => exact absurd hs (by simp)

/-- A call that is let through: a node may be entered, and stays as it is when it is left. -/
def Visit.Passed : Visit ε → Prop
  | entered _ answer => answer = .ok ()
  | left e answer => answer = .ok e

/-- Where all calls are let through, the way around an expression gives the expression. -/
def Reproduced (x : Expr) : Prop :=
  ∀ ⦃ε : Type⦄ ⦃way : List Turn⦄ ⦃stack : List Expr⦄ ⦃calls : List (Visit ε)⦄
    ⦃r : Except ε (List Expr)⦄, Follows (x.tour ++ way) stack calls r → (∀ c ∈ calls, c.Passed) →
    ∃ calls', Follows way (x :: stack) calls' r ∧ ∀ c ∈ calls', c.Passed

theorem Reproduced.flatMap {xs : List Expr} (hxs : ∀ x ∈ xs, Reproduced x)
    (h : Follows (xs.flatMap tour ++ way) stack calls r) (hpassed : ∀ c ∈ calls, c.Passed) :
    ∃ calls', Follows way (xs.reverse ++ stack) calls' r ∧ ∀ c ∈ calls', c.Passed := by
  induction xs generalizing stack calls with
  | nil => exact ⟨calls, h, hpassed⟩
  | cons x xs ih =>
    obtain ⟨hx, hxs⟩ := List.forall_mem_cons.1 hxs
    rw [List.flatMap_cons, List.append_assoc] at h
    obtain ⟨calls₁, h₁, hpassed₁⟩ := hx h hpassed
    rw [List.reverse_cons, List.append_assoc]
    exact ih hxs h₁ hpassed₁

theorem Follows.up_passed {x : Expr}
    (h : Follows (.up x :: way) (x.children.reverse ++ stack) calls r)
    (hpassed : ∀ c ∈ calls, c.Passed) :
    ∃ calls', Follows way (x :: stack) calls' r ∧ ∀ c ∈ calls', c.Passed := by
  generalize hs : x.children.reverse ++ stack = s at h
  cases h with
  | @up _ y z _ stack₁ calls₁ _ hlabel hlength hrest =>
    obtain ⟨hz, hpassed₁⟩ := List.forall_mem_cons.1 hpassed
    obtain ⟨hchildren, rfl⟩ := List.append_inj hs (by simp [hlength])
    have hsame : y = x := eq_of_label hlabel (List.reverse_injective hchildren.symm)
    obtain rfl := Except.ok.inj hz
    exact ⟨calls₁, hsame ▸ hrest, hpassed₁⟩
  | dropped => exact absurd (List.forall_mem_singleton.1 hpassed) (by simp [Visit.Passed])

theorem reproduced (x : Expr) : Reproduced x := by
  induction x using children_induction with
  | step x ih =>
    intro ε way stack calls r h hpassed
    rw [tour_eq, List.cons_append, List.append_assoc] at h
    cases h with
    | down hrest =>
      obtain ⟨calls₁, hup, hpassed₁⟩ :=
        Reproduced.flatMap ih hrest (List.forall_mem_cons.1 hpassed).2
      exact hup.up_passed hpassed₁
    | refused => exact absurd (List.forall_mem_singleton.1 hpassed) (by simp [Visit.Passed])

section Traverse

variable (enter : Expr → Stateful σ ε Unit) (leave : Expr → Stateful σ ε Expr)

/-- The traversal with all calls of the visitor noted. -/
def traverseNoting (e : Expr) : Stateful (σ × List (Visit ε)) ε Expr :=
  e.traverse (fun x => noting (.entered x) (enter x)) fun x => noting (.left x) (leave x)

theorem notes_traverse (e : Expr) :
    Notes (e.traverseNoting enter leave) (e.traverse enter leave) (Rounds e) := by
  unfold traverseNoting
  induction e using children_induction with
  | step e ih =>
    rw [traverse_eq, traverse_eq, mapChildren_eq, mapChildren_eq]
    simp only [bind_assoc, pure_bind]
    refine ((notes_noting (.entered e) (enter e)).bind fun _ => (notes_mapM ih).bind fun es =>
      notes_noting (.left (e.withParts es)) (leave (e.withParts es))).imp ?_
    rintro calls r h stack
    rw [tour_eq]
    rcases h with ⟨err, rfl, rfl⟩ | ⟨_, ⟨⟩, rest, rfl, rfl, hrest⟩
    · exact .refused
    · refine .down ?_
      rcases hrest with ⟨err, rfl, hparts⟩ | ⟨first, es, last, rfl, hparts, rfl⟩
      · exact (Follows.of_through hparts stack).append_error _
      · exact (Follows.of_through hparts stack).append (.left_withParts hparts.length_eq stack r)

/-- What the calls of a visitor are, and what comes of an expression by them. -/
structure Visited (e : Expr) (calls : List (Visit ε)) (r : Except ε Expr) : Prop where
  /-- The calls go around the expression, up to the first that fails. -/
  follows : Follows e.tour [] calls (r.map ([·]))
  entered : calls.filterMap Visit.entered? <+: e.preorder
  left : (calls.filterMap Visit.left?).map label <+: e.postorder.map label
  entered_all : ∀ z, r = .ok z → calls.filterMap Visit.entered? = e.preorder
  left_all : ∀ z, r = .ok z → (calls.filterMap Visit.left?).map label = e.postorder.map label
  passed : (∀ c ∈ calls, c.Passed) → r = .ok e

theorem Rounds.visited {e : Expr} {r : Except ε Expr} (h : Rounds e calls r) :
    Visited e calls r := by
  have hfollows := h []
  have horder := hfollows.order
  rw [downs_tour, ups_tour] at horder
  have hcomplete : ∀ z, r = .ok z → calls.filterMap Visit.entered? = e.preorder ∧
      (calls.filterMap Visit.left?).map label = e.postorder.map label := by
    rintro z rfl
    have hall := hfollows.complete
    rwa [downs_tour, ups_tour] at hall
  refine ⟨hfollows, horder.1, horder.2, fun z hz => (hcomplete z hz).1,
    fun z hz => (hcomplete z hz).2, fun hpassed => ?_⟩
  rw [← List.append_nil e.tour] at hfollows
  obtain ⟨calls', hdone, -⟩ := reproduced e hfollows hpassed
  generalize hs : r.map ([·]) = s at hdone
  cases hdone
  cases r with
  | error err => exact absurd hs (by simp [Except.map])
  | ok z => rw [(List.cons.inj (Except.ok.inj hs)).1]

end Traverse

section Map

/-- The map of the parts of a node with all calls noted. -/
def mapChildrenNoting (f : Expr → Stateful σ ε Expr) (e : Expr) :
    Stateful (σ × List (Expr × Except ε Expr)) ε Expr :=
  e.mapChildren fun x => noting (x, ·) (f x)

/-- What the calls of a map are, and what comes of a node by them. -/
structure Mapped (e : Expr) (calls : List (Expr × Except ε Expr)) (r : Except ε Expr) : Prop where
  /-- One call for each part, up to the first that fails; the answers are the new parts. -/
  through : Through (fun x call answer => call = [(x, answer)]) e.children calls (r.map children)
  label : ∀ z, r = .ok z → z.label = e.label

theorem notes_mapChildren (f : Expr → Stateful σ ε Expr) (e : Expr) :
    Notes (e.mapChildrenNoting f) (e.mapChildren f) (Mapped e) := by
  unfold mapChildrenNoting
  rw [mapChildren_eq, mapChildren_eq]
  refine ((notes_mapM fun x _ => notes_noting (x, ·) (f x)).bind fun es => notes_pure _).imp ?_
  rintro calls r (⟨err, rfl, hparts⟩ | ⟨first, es, _, rfl, hparts, rfl, rfl⟩)
  · exact ⟨hparts, fun z hz => absurd hz (by simp)⟩
  · rw [List.append_nil]
    refine ⟨?_, fun z hz => ?_⟩
    · simpa only [Except.map, children_withParts hparts.length_eq] using hparts
    · rw [← Except.ok.inj hz, label_withParts]

end Map

/-- In a traversal every node is entered before its parts and left, built again from what came of
them, behind them; a node that was put in the place of another is not visited. In a map of the parts
of a node they are handed over in their order. The first call that fails is the last one, and its
error is the result. -/
theorem calls_in_order (enter : Expr → Stateful σ ε Unit) (leave f : Expr → Stateful σ ε Expr)
    (e : Expr) :
    Notes (e.traverseNoting enter leave) (e.traverse enter leave) (Visited e) ∧
      Notes (e.mapChildrenNoting f) (e.mapChildren f) (Mapped e) :=
  ⟨(notes_traverse enter leave e).imp fun _ _ h => h.visited, notes_mapChildren f e⟩

/-- The call behind the one that fails is not made: the negation is entered, but not left. -/
example : ((Expr.negate (.aggregate .sum false (.column (.unqualified "a")))).traverseNoting
      (fun _ => modify (· + 1)) fun x => if x.isAggregate then throw "stop" else pure x).run.run
        (0, []) =
    (.error "stop", 3,
      [.entered (.negate (.aggregate .sum false (.column (.unqualified "a")))) (.ok ()),
        .entered (.aggregate .sum false (.column (.unqualified "a"))) (.ok ()),
        .entered (.column (.unqualified "a")) (.ok ()),
        .left (.column (.unqualified "a")) (.ok (.column (.unqualified "a"))),
        .left (.aggregate .sum false (.column (.unqualified "a"))) (.error "stop")]) := rfl

end Visits

end RelQuery.Expr
