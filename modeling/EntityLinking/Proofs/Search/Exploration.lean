import EntityLinking.Proofs.Search.Tree

/-!
# Exploration by distance

A search goes on distance by distance.  Before the vertices of distance `n` are explored, the
frontier holds exactly the vertices of depth `n` that are no targets, and every such vertex of a
smaller depth has had all its neighbours seen.  Looking at one neighbour keeps the invariant of a
level that is being explored, and a level explored to its end restores the first invariant with
`n + 1` in place of `n`.  What a finished search has found is therefore a grown tree, closed up to
the greatest distance: a vertex is found as soon as some open walk of that length leads to it, and
never deeper than the walk is long.
-/

namespace EntityLinking
namespace Search

variable {kg : KnowledgeGraph} {isTarget : String → Bool} {start u : String}
variable {s s' : State} {link : Link} {n : Nat} {frontier todo : List String}

/-! ## One neighbour -/

theorem visit_of_seen (h : Seen start s.found link.uri) :
    visit isTarget start u s link = s := by
  rw [visit, if_pos (State.seen_iff.mpr h)]

theorem visit_of_target (h : ¬ Seen start s.found link.uri) (ht : isTarget link.uri = true) :
    visit isTarget start u s link =
      let found := ⟨link.uri, u, link.predicate⟩ :: s.found
      { s with found := found, graph := s.graph.addEdges (trail found link.uri) } := by
  rw [visit, if_neg (fun hseen => h (State.seen_iff.mp hseen)), if_pos ht]

theorem visit_of_open (h : ¬ Seen start s.found link.uri) (ht : isTarget link.uri = false) :
    visit isTarget start u s link =
      { s with
        found := ⟨link.uri, u, link.predicate⟩ :: s.found
        next := s.next ++ [link.uri] } := by
  rw [visit, if_neg (fun hseen => h (State.seen_iff.mp hseen)), if_neg (by simp [ht])]

theorem found_visit_of_new (h : ¬ Seen start s.found link.uri) :
    (visit isTarget start u s link).found = ⟨link.uri, u, link.predicate⟩ :: s.found := by
  cases ht : isTarget link.uri with
  | true => rw [visit_of_target h ht]
  | false => rw [visit_of_open h ht]

theorem mem_next_visit_of_new (h : ¬ Seen start s.found link.uri) {w : String} :
    w ∈ (visit isTarget start u s link).next ↔
      w ∈ s.next ∨ (w = link.uri ∧ isTarget w = false) := by
  cases ht : isTarget link.uri with
  | true =>
      rw [visit_of_target h ht]
      constructor
      · exact Or.inl
      · rintro (hw | ⟨rfl, hw⟩)
        · exact hw
        · simp [ht] at hw
  | false =>
      rw [visit_of_open h ht]
      simp only [List.mem_append, List.mem_singleton]
      constructor
      · rintro (hw | rfl)
        · exact Or.inl hw
        · exact Or.inr ⟨rfl, ht⟩
      · rintro (hw | ⟨rfl, -⟩)
        · exact Or.inl hw
        · exact Or.inr rfl

theorem seen_visit_self : Seen start (visit isTarget start u s link).found link.uri := by
  by_cases h : Seen start s.found link.uri
  · rwa [visit_of_seen h]
  · rw [found_visit_of_new h]
    exact seen_cons.mpr (Or.inl rfl)

theorem seen_visit {w : String} (hw : Seen start s.found w) :
    Seen start (visit isTarget start u s link).found w := by
  by_cases h : Seen start s.found link.uri
  · rwa [visit_of_seen h]
  · rw [found_visit_of_new h]
    exact seen_cons.mpr (Or.inr hw)

theorem seen_visits {links : List Link} :
    ∀ {s : State} {w : String}, Seen start s.found w →
      Seen start (links.foldl (visit isTarget start u) s).found w := by
  induction links with
  | nil => exact fun hw => hw
  | cons link links ih => exact fun hw => ih (seen_visit hw)

theorem seen_visits_of_mem {links : List Link} :
    ∀ {s : State} {l : Link}, l ∈ links →
      Seen start (links.foldl (visit isTarget start u) s).found l.uri := by
  induction links with
  | nil =>
      intro s l hl
      simp at hl
  | cons link links ih =>
      intro s l hl
      rw [List.foldl_cons]
      rcases List.mem_cons.mp hl with rfl | hl
      · exact seen_visits seen_visit_self
      · exact ih hl

/-- What is to be explored at the next distance has been seen. -/
theorem seen_of_mem_next_visit (h : ∀ w ∈ s.next, Seen start s.found w) :
    ∀ w ∈ (visit isTarget start u s link).next,
      Seen start (visit isTarget start u s link).found w := by
  intro w hw
  by_cases hseen : Seen start s.found link.uri
  · rw [visit_of_seen hseen] at hw ⊢
    exact h w hw
  · rcases (mem_next_visit_of_new hseen).mp hw with hw | ⟨rfl, -⟩
    · exact seen_visit (h w hw)
    · exact seen_visit_self

/-- The subgraph of a search is what it started from with the branches of its discoveries. -/
theorem graph_visit {g : Subgraph} (h : s.graph = g.addEdges (branches isTarget s.found)) :
    (visit isTarget start u s link).graph =
      g.addEdges (branches isTarget (visit isTarget start u s link).found) := by
  by_cases hseen : Seen start s.found link.uri
  · rwa [visit_of_seen hseen]
  · cases ht : isTarget link.uri with
    | true =>
        rw [visit_of_target hseen ht]
        simp only [branches, ht, if_true]
        rw [Subgraph.addEdges_append, h]
    | false =>
        rw [visit_of_open hseen ht]
        simp [branches, ht, h]

/-! ## Runs -/

theorem exploreLevel_cons_eq_ok_iff {rest : List String} :
    (exploreLevel kg isTarget start (u :: rest) s).outcome = .ok s' ↔
      ∃ links, kg.neighbours u = .ok links ∧
        (exploreLevel kg isTarget start rest
          (links.foldl (visit isTarget start u) s)).outcome = .ok s' := by
  rw [exploreLevel, Recorded.bind_eq, Recorded.outcome_andThen_eq_ok_iff]
  rfl

theorem explore_succ_cons_eq_ok_iff {distance : Nat} {rest : List String} :
    (explore kg isTarget start (distance + 1) (u :: rest) s).outcome = .ok s' ↔
      ∃ t, (exploreLevel kg isTarget start (u :: rest) { s with next := [] }).outcome = .ok t ∧
        (explore kg isTarget start distance t.next t).outcome = .ok s' := by
  rw [explore, Recorded.bind_eq, Recorded.outcome_andThen_eq_ok_iff]

/-- What every visit keeps holds after a level if it held before. -/
theorem exploreLevel_induction {P : State → Prop}
    (hvisit : ∀ u s link, P s → P (visit isTarget start u s link)) :
    ∀ {todo : List String} {s s' : State},
      (exploreLevel kg isTarget start todo s).outcome = .ok s' → P s → P s' := by
  have hvisits : ∀ (u : String) (links : List Link) (s : State),
      P s → P (links.foldl (visit isTarget start u) s) := by
    intro u links
    induction links with
    | nil => exact fun s hs => hs
    | cons link links ih => exact fun s hs => ih _ (hvisit u s link hs)
  intro todo
  induction todo with
  | nil =>
      intro s s' hrun hs
      obtain rfl : s = s' := by simpa [exploreLevel] using hrun
      exact hs
  | cons u rest ih =>
      intro s s' hrun hs
      obtain ⟨links, -, hrest⟩ := exploreLevel_cons_eq_ok_iff.mp hrun
      exact ih hrest (hvisits u links s hs)

/-- What every visit keeps, and what does not depend on the vertices still to come, holds after
a search if it held before. -/
theorem explore_induction {P : State → Prop}
    (hnext : ∀ s, P s → P { s with next := [] })
    (hvisit : ∀ u s link, P s → P (visit isTarget start u s link)) :
    ∀ {distance : Nat} {frontier : List String} {s s' : State},
      (explore kg isTarget start distance frontier s).outcome = .ok s' → P s → P s' := by
  intro distance
  induction distance with
  | zero =>
      intro frontier s s' hrun hs
      obtain rfl : s = s' := by simpa [explore] using hrun
      exact hs
  | succ distance ih =>
      intro frontier s s' hrun hs
      cases frontier with
      | nil =>
          obtain rfl : s = s' := by simpa [explore] using hrun
          exact hs
      | cons u rest =>
          obtain ⟨t, hlevel, hrest⟩ := explore_succ_cons_eq_ok_iff.mp hrun
          exact ih hrest (exploreLevel_induction hvisit hlevel (hnext s hs))

theorem graph_explore {distance : Nat} {g : Subgraph}
    (hrun : (explore kg isTarget start distance frontier s).outcome = .ok s')
    (h : s.graph = g.addEdges (branches isTarget s.found)) :
    s'.graph = g.addEdges (branches isTarget s'.found) :=
  explore_induction (P := fun s => s.graph = g.addEdges (branches isTarget s.found))
    (fun _ hs => hs) (fun _ _ _ hs => graph_visit hs) hrun h

/-! ## Searches in step -/

section Lockstep

variable {kg' : KnowledgeGraph} {R : State → State → Prop}

/-- A relation between the states of two searches, perhaps of two graphs, that stays as long as both
explore the same vertices. -/
structure Lockstep (kg kg' : KnowledgeGraph) (isTarget : String → Bool) (start : String)
    (R : State → State → Prop) : Prop where
  next : ∀ {s t : State}, R s t → s.next = t.next
  clear : ∀ {s t : State}, R s t → R { s with next := [] } { t with next := [] }
  visits : ∀ {s t : State} {u : String} {links : List Link}, R s t → Seen start s.found u →
    kg.neighbours u = .ok links →
      ∃ links', kg'.neighbours u = .ok links' ∧
        R (links.foldl (visit isTarget start u) s) (links'.foldl (visit isTarget start u) t)

theorem Lockstep.exploreLevel (h : Lockstep kg kg' isTarget start R) :
    ∀ {todo : List String} {s t s' : State}, R s t → (∀ u ∈ todo, Seen start s.found u) →
      (exploreLevel kg isTarget start todo s).outcome = .ok s' →
        ∃ t', (exploreLevel kg' isTarget start todo t).outcome = .ok t' ∧ R s' t' := by
  intro todo
  induction todo with
  | nil =>
      intro s t s' hst _ hrun
      obtain rfl : s = s' := by simpa [Search.exploreLevel] using hrun
      exact ⟨t, rfl, hst⟩
  | cons u rest ih =>
      intro s t s' hst hseen hrun
      obtain ⟨links, hlinks, hrest⟩ := exploreLevel_cons_eq_ok_iff.mp hrun
      obtain ⟨links', hlinks', hvisits⟩ := h.visits hst (hseen u List.mem_cons_self) hlinks
      have hseen' : ∀ w ∈ rest, Seen start (links.foldl (visit isTarget start u) s).found w :=
        fun w hw => seen_visits (hseen w (List.mem_cons_of_mem _ hw))
      obtain ⟨t', hrest', hdone⟩ := ih hvisits hseen' hrest
      exact ⟨t', exploreLevel_cons_eq_ok_iff.mpr ⟨links', hlinks', hrest'⟩, hdone⟩

/-- Two searches that begin in related states end in related states. -/
theorem Lockstep.explore (h : Lockstep kg kg' isTarget start R) :
    ∀ {distance : Nat} {frontier : List String} {s t s' : State}, R s t →
      (∀ u ∈ frontier, Seen start s.found u) →
      (explore kg isTarget start distance frontier s).outcome = .ok s' →
        ∃ t', (explore kg' isTarget start distance frontier t).outcome = .ok t' ∧ R s' t' := by
  intro distance
  induction distance with
  | zero =>
      intro frontier s t s' hst _ hrun
      obtain rfl : s = s' := by simpa [Search.explore] using hrun
      exact ⟨t, rfl, hst⟩
  | succ distance ih =>
      intro frontier s t s' hst hseen hrun
      cases frontier with
      | nil =>
          obtain rfl : s = s' := by simpa [Search.explore] using hrun
          exact ⟨t, rfl, hst⟩
      | cons u rest =>
          obtain ⟨r, hlevel, hrest⟩ := explore_succ_cons_eq_ok_iff.mp hrun
          obtain ⟨r', hlevel', hr⟩ := h.exploreLevel (h.clear hst) hseen hlevel
          have hnext : ∀ w ∈ r.next, Seen start r.found w :=
            exploreLevel_induction (P := fun s => ∀ w ∈ s.next, Seen start s.found w)
              (fun _ _ _ hs => seen_of_mem_next_visit hs) hlevel (by simp)
          obtain ⟨t', hrest', hdone⟩ := ih hr hnext hrest
          rw [h.next hr] at hrest'
          exact ⟨t', explore_succ_cons_eq_ok_iff.mpr ⟨r', hlevel', hrest'⟩, hdone⟩

end Lockstep

/-! ## The subgraph plays no part -/

/-- Two states of a search that differ at most in the subgraph that has been grown. -/
structure SameProgress (s t : State) : Prop where
  found : s.found = t.found
  next : s.next = t.next

theorem SameProgress.visit {t : State} (h : SameProgress s t) :
    SameProgress (visit isTarget start u s link) (visit isTarget start u t link) := by
  by_cases hseen : Seen start s.found link.uri
  · have hseen' : Seen start t.found link.uri := h.found ▸ hseen
    rwa [visit_of_seen hseen, visit_of_seen hseen']
  · have hseen' : ¬ Seen start t.found link.uri := h.found ▸ hseen
    cases ht : isTarget link.uri with
    | true =>
        rw [visit_of_target hseen ht, visit_of_target hseen' ht]
        exact ⟨congrArg (List.cons _) h.found, h.next⟩
    | false =>
        rw [visit_of_open hseen ht, visit_of_open hseen' ht]
        exact ⟨congrArg (List.cons _) h.found, congrArg (· ++ [link.uri]) h.next⟩

theorem SameProgress.visits {links : List Link} :
    ∀ {s t : State}, SameProgress s t →
      SameProgress (links.foldl (Search.visit isTarget start u) s)
        (links.foldl (Search.visit isTarget start u) t) := by
  induction links with
  | nil => exact fun h => h
  | cons link links ih => exact fun h => ih h.visit

theorem SameProgress.lockstep : Lockstep kg kg isTarget start SameProgress where
  next := fun h => h.next
  clear := fun h => ⟨h.found, rfl⟩
  visits := fun {_ _ _ links} h _ hlinks => ⟨links, hlinks, h.visits⟩

/-! ## Levels -/

/-- The search stands before the vertices of distance `n`, which the frontier holds. -/
structure AtDistance (kg : KnowledgeGraph) (isTarget : String → Bool) (start : String)
    (n : Nat) (frontier : List String) (s : State) : Prop where
  grown : Grown kg isTarget start s.found
  depth_le : ∀ {u : String}, Seen start s.found u → depth s.found u ≤ n
  mem_iff : ∀ {u : String},
    u ∈ frontier ↔ Seen start s.found u ∧ isTarget u = false ∧ depth s.found u = n
  closed : ∀ {u v : String}, Seen start s.found u → isTarget u = false →
    depth s.found u < n → Steps kg u v →
      Seen start s.found v ∧ depth s.found v ≤ depth s.found u + 1

/-- The search is on its way through the vertices of distance `n`; those in `todo` are still to be
explored. -/
structure Advancing (kg : KnowledgeGraph) (isTarget : String → Bool) (start : String)
    (n : Nat) (frontier todo : List String) (s : State) : Prop where
  grown : Grown kg isTarget start s.found
  depth_le : ∀ {u : String}, Seen start s.found u → depth s.found u ≤ n + 1
  mem_iff : ∀ {u : String},
    u ∈ frontier ↔ Seen start s.found u ∧ isTarget u = false ∧ depth s.found u = n
  next_iff : ∀ {u : String},
    u ∈ s.next ↔ Seen start s.found u ∧ isTarget u = false ∧ depth s.found u = n + 1
  closed : ∀ {u v : String}, Seen start s.found u → isTarget u = false →
    depth s.found u < n → Steps kg u v →
      Seen start s.found v ∧ depth s.found v ≤ depth s.found u + 1
  explored : ∀ {u v : String}, u ∈ frontier → u ∉ todo → Steps kg u v →
    Seen start s.found v

theorem AtDistance.advancing (h : AtDistance kg isTarget start n frontier s) :
    Advancing kg isTarget start n frontier frontier { s with next := [] } where
  grown := h.grown
  depth_le := fun hu => Nat.le_succ_of_le (h.depth_le hu)
  mem_iff := h.mem_iff
  next_iff := by
    intro u
    constructor
    · intro hu
      simp at hu
    · rintro ⟨hseen, -, hdepth⟩
      have hle : depth s.found u ≤ n := h.depth_le hseen
      rw [show depth s.found u = n + 1 from hdepth] at hle
      omega
  closed := h.closed
  explored := fun hu hnot _ => absurd hu hnot

theorem Advancing.atDistance (h : Advancing kg isTarget start n frontier [] s) :
    AtDistance kg isTarget start (n + 1) s.next s where
  grown := h.grown
  depth_le := h.depth_le
  mem_iff := h.next_iff
  closed := by
    intro u v hseen hopen hdepth hstep
    rcases Nat.lt_succ_iff_lt_or_eq.mp hdepth with hlt | heq
    · exact h.closed hseen hopen hlt hstep
    · have hv := h.explored (h.mem_iff.mpr ⟨hseen, hopen, heq⟩) (by simp) hstep
      exact ⟨hv, heq ▸ h.depth_le hv⟩

/-- The step lemma of a level: looking at one neighbour of a frontier vertex keeps the
invariant. -/
theorem Advancing.visit (h : Advancing kg isTarget start n frontier todo s)
    (hu : u ∈ frontier) (hstep : Steps kg u link.uri) :
    Advancing kg isTarget start n frontier todo (visit isTarget start u s link) := by
  by_cases hnew : Seen start s.found link.uri
  · rwa [visit_of_seen hnew]
  · obtain ⟨hseen, hopen, hdepth⟩ := h.mem_iff.mp hu
    let d : Discovery := ⟨link.uri, u, link.predicate⟩
    have hfound : (Search.visit isTarget start u s link).found = d :: s.found :=
      found_visit_of_new hnew
    have hself : depth (d :: s.found) d.vertex = n + 1 := by
      rw [depth_cons_self]
      exact congrArg (· + 1) hdepth
    have hold : ∀ {w : String}, Seen start s.found w →
        depth (d :: s.found) w = depth s.found w := fun hw =>
      depth_cons_of_seen hnew hw
    constructor
    · rw [hfound]
      exact Grown.cons h.grown hseen hopen hnew hstep
    · intro w hw
      rw [hfound] at hw ⊢
      rcases seen_cons.mp hw with rfl | hw
      · exact hself.le
      · rw [hold hw]
        exact h.depth_le hw
    · intro w
      rw [hfound, h.mem_iff, seen_cons]
      constructor
      · rintro ⟨hw, hrest⟩
        exact ⟨Or.inr hw, by rwa [hold hw]⟩
      · rintro ⟨rfl | hw, hwopen, hwdepth⟩
        · omega
        · exact ⟨hw, hwopen, by rwa [hold hw] at hwdepth⟩
    · intro w
      rw [mem_next_visit_of_new hnew, h.next_iff, hfound, seen_cons]
      constructor
      · rintro (⟨hw, hwopen, hwdepth⟩ | ⟨rfl, hwopen⟩)
        · exact ⟨Or.inr hw, hwopen, by rwa [hold hw]⟩
        · exact ⟨Or.inl rfl, hwopen, hself⟩
      · rintro ⟨rfl | hw, hwopen, hwdepth⟩
        · exact Or.inr ⟨rfl, hwopen⟩
        · exact Or.inl ⟨hw, hwopen, by rwa [hold hw] at hwdepth⟩
    · intro w v hw hwopen hwdepth hwv
      rw [hfound] at hw hwdepth ⊢
      rcases seen_cons.mp hw with rfl | hw
      · omega
      · rw [hold hw] at hwdepth ⊢
        obtain ⟨hv, hvdepth⟩ := h.closed hw hwopen hwdepth hwv
        exact ⟨seen_cons.mpr (Or.inr hv), by rwa [hold hv]⟩
    · intro w v hw hnot hwv
      exact seen_visit (h.explored hw hnot hwv)

theorem Advancing.visits (hu : u ∈ frontier) :
    ∀ {links : List Link} {s : State}, (∀ l ∈ links, Steps kg u l.uri) →
      Advancing kg isTarget start n frontier todo s →
        Advancing kg isTarget start n frontier todo
          (links.foldl (Search.visit isTarget start u) s) := by
  intro links
  induction links with
  | nil => exact fun _ h => h
  | cons link links ih =>
      intro s hsteps h
      exact ih (fun l hl => hsteps l (List.mem_cons_of_mem _ hl))
        (h.visit hu (hsteps link List.mem_cons_self))

/-- The run lemma of a level. -/
theorem Advancing.exploreLevel :
    ∀ {todo : List String} {s s' : State}, todo ⊆ frontier →
      Advancing kg isTarget start n frontier todo s →
        (exploreLevel kg isTarget start todo s).outcome = .ok s' →
          Advancing kg isTarget start n frontier [] s' := by
  intro todo
  induction todo with
  | nil =>
      intro s s' _ h hrun
      obtain rfl : s = s' := by simpa [Search.exploreLevel] using hrun
      exact h
  | cons u rest ih =>
      intro s s' hsub h hrun
      obtain ⟨links, hlinks, hrest⟩ := exploreLevel_cons_eq_ok_iff.mp hrun
      have hu : u ∈ frontier := hsub List.mem_cons_self
      have hsteps : ∀ l ∈ links, Steps kg u l.uri := fun l hl =>
        ⟨links, hlinks, l, hl, rfl⟩
      have hdone := h.visits hu hsteps
      refine ih (fun w hw => hsub (List.mem_cons_of_mem _ hw)) ?_ hrest
      refine ⟨hdone.grown, hdone.depth_le, hdone.mem_iff, hdone.next_iff, hdone.closed, ?_⟩
      intro w v hw hnot hwv
      by_cases hwu : w = u
      · subst hwu
        obtain ⟨links', hlinks', l, hl, rfl⟩ := hwv
        obtain rfl : links = links' := by simpa [hlinks] using hlinks'
        exact seen_visits_of_mem hl
      · exact hdone.explored hw (by simp [hwu, hnot]) hwv

/-! ## Finished searches -/

/-- The discoveries of a search that went up to a greatest distance: a grown tree of bounded depth
in which every open vertex above the greatest depth has had all its neighbours seen. -/
structure Complete (kg : KnowledgeGraph) (isTarget : String → Bool) (start : String)
    (distance : Nat) (found : List Discovery) : Prop where
  grown : Grown kg isTarget start found
  depth_le : ∀ {u : String}, Seen start found u → depth found u ≤ distance
  closed : ∀ {u v : String}, Seen start found u → isTarget u = false →
    depth found u < distance → Steps kg u v →
      Seen start found v ∧ depth found v ≤ depth found u + 1

theorem atDistance_start (hstart : isTarget start = false) (g : Subgraph) :
    AtDistance kg isTarget start 0 [start] ⟨[], [], g⟩ where
  grown := Grown.nil
  depth_le := by simp [depth, trail]
  mem_iff := by
    intro u
    simp only [List.mem_singleton, Seen, Discovered, depth, trail]
    constructor
    · rintro rfl
      exact ⟨Or.inl rfl, hstart, rfl⟩
    · rintro ⟨hu | hu, -, -⟩
      · exact hu
      · simp at hu
  closed := by simp

/-- The run lemma of a search. -/
theorem AtDistance.complete :
    ∀ {distance n : Nat} {frontier : List String} {s s' : State},
      AtDistance kg isTarget start n frontier s →
        (explore kg isTarget start distance frontier s).outcome = .ok s' →
          Complete kg isTarget start (n + distance) s'.found := by
  intro distance
  induction distance with
  | zero =>
      intro n frontier s s' h hrun
      obtain rfl : s = s' := by simpa [explore] using hrun
      exact ⟨h.grown, h.depth_le, h.closed⟩
  | succ distance ih =>
      intro n frontier s s' h hrun
      cases frontier with
      | nil =>
          -- nothing is left to explore, so no open vertex has depth `n` or more
          obtain rfl : s = s' := by simpa [explore] using hrun
          refine ⟨h.grown, fun hu => (h.depth_le hu).trans (Nat.le_add_right _ _), ?_⟩
          intro u v hu hopen _ hstep
          refine h.closed hu hopen (lt_of_le_of_ne (h.depth_le hu) ?_) hstep
          intro hdepth
          simpa using h.mem_iff.mpr ⟨hu, hopen, hdepth⟩
      | cons u rest =>
          obtain ⟨t, hlevel, hrest⟩ := explore_succ_cons_eq_ok_iff.mp hrun
          have hdone := h.advancing.exploreLevel (List.Subset.refl _) hlevel
          have hcomplete := ih hdone.atDistance hrest
          rwa [Nat.add_assoc, Nat.add_comm 1 distance] at hcomplete

/-- A vertex at the end of an open walk from a seen vertex has been seen itself, and it is no deeper
than the walk leads. -/
theorem Complete.seen_of_isChain {distance : Nat} {found : List Discovery}
    (h : Complete kg isTarget start distance found) {t : String} :
    ∀ {interior : List String} {a : String}, Seen start found a → isTarget a = false →
      (∀ w ∈ interior, isTarget w = false) →
      (a :: (interior ++ [t])).IsChain (Steps kg) →
      depth found a + interior.length + 1 ≤ distance →
        Seen start found t ∧ depth found t ≤ depth found a + interior.length + 1 := by
  intro interior
  induction interior with
  | nil =>
      intro a ha hopen _ hchain hdistance
      have hstep : Steps kg a t := List.isChain_pair.mp hchain
      exact h.closed ha hopen (Nat.lt_of_succ_le hdistance) hstep
  | cons b interior ih =>
      intro a ha hopen hinterior hchain hdistance
      rw [List.cons_append, List.isChain_cons_cons] at hchain
      rw [List.length_cons] at hdistance ⊢
      obtain ⟨hb, hdepth⟩ := h.closed ha hopen (by omega) hchain.1
      obtain ⟨ht, htdepth⟩ := ih hb (hinterior b List.mem_cons_self)
        (fun w hw => hinterior w (List.mem_cons_of_mem _ hw)) hchain.2 (by omega)
      exact ⟨ht, by omega⟩

/-- A route from the start whose interior is open finds its target, at a depth of at most its
length. -/
theorem Complete.seen_of_route {distance : Nat} {found : List Discovery}
    (h : Complete kg isTarget start distance found) (hstart : isTarget start = false)
    {r : Route} (hsource : r.source = start) (hopen : ∀ w ∈ r.interior, isTarget w = false)
    (hfollows : r.Follows (Steps kg)) (hlength : r.length ≤ distance) :
    Seen start found r.target ∧ depth found r.target ≤ r.length := by
  have hdepth := h.grown.depth_start
  have hchain : (start :: (r.interior ++ [r.target])).IsChain (Steps kg) := hsource ▸ hfollows
  have hseen := h.seen_of_isChain (Or.inl rfl) hstart hopen hchain
    (by rwa [hdepth, Nat.zero_add])
  rwa [hdepth, Nat.zero_add] at hseen

/-! ## Searches that meet no fault -/

/-- Where the neighbours of a set of vertices can be asked for and lie in the set, exploring from
the set meets no fault. -/
theorem exploreLevel_isOk {V : String → Prop}
    (hV : ∀ u, V u → ∃ links, kg.neighbours u = .ok links ∧ ∀ l ∈ links, V l.uri) :
    ∀ {todo : List String} {s : State}, (∀ u ∈ todo, V u) → (∀ u ∈ s.next, V u) →
      ∃ s', (exploreLevel kg isTarget start todo s).outcome = .ok s' ∧ ∀ u ∈ s'.next, V u := by
  have hvisits : ∀ (u : String) (links : List Link) (s : State), (∀ l ∈ links, V l.uri) →
      (∀ w ∈ s.next, V w) → ∀ w ∈ (links.foldl (visit isTarget start u) s).next, V w := by
    intro u links
    induction links with
    | nil => exact fun s _ hs => hs
    | cons link links ih =>
        intro s hlinks hs
        apply ih _ (fun l hl => hlinks l (List.mem_cons_of_mem _ hl))
        intro w hw
        by_cases hseen : Seen start s.found link.uri
        · rw [visit_of_seen hseen] at hw
          exact hs w hw
        · rcases (mem_next_visit_of_new hseen).mp hw with hw | ⟨rfl, -⟩
          · exact hs w hw
          · exact hlinks link List.mem_cons_self
  intro todo
  induction todo with
  | nil => exact fun _ hs => ⟨_, rfl, hs⟩
  | cons u rest ih =>
      intro s htodo hs
      obtain ⟨links, hlinks, hinside⟩ := hV u (htodo u List.mem_cons_self)
      obtain ⟨s', hrun, hs'⟩ := ih (fun w hw => htodo w (List.mem_cons_of_mem _ hw))
        (hvisits u links s hinside hs)
      exact ⟨s', exploreLevel_cons_eq_ok_iff.mpr ⟨links, hlinks, hrun⟩, hs'⟩

theorem explore_isOk {V : String → Prop}
    (hV : ∀ u, V u → ∃ links, kg.neighbours u = .ok links ∧ ∀ l ∈ links, V l.uri) :
    ∀ {distance : Nat} {frontier : List String} {s : State}, (∀ u ∈ frontier, V u) →
      ∃ s', (explore kg isTarget start distance frontier s).outcome = .ok s' := by
  intro distance
  induction distance with
  | zero => exact fun _ => ⟨_, rfl⟩
  | succ distance ih =>
      intro frontier s hfrontier
      cases frontier with
      | nil => exact ⟨s, rfl⟩
      | cons u rest =>
          have hstep : ∃ t, (exploreLevel kg isTarget start (u :: rest)
              { s with next := [] }).outcome = .ok t ∧ ∀ w ∈ t.next, V w :=
            exploreLevel_isOk hV hfrontier (by simp)
          obtain ⟨t, hlevel, ht⟩ := hstep
          obtain ⟨s', hrun⟩ := ih (s := t) ht
          exact ⟨s', explore_succ_cons_eq_ok_iff.mpr ⟨t, hlevel, hrun⟩⟩

end Search
end EntityLinking
