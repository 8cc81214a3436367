import EntityLinking.Graph.Search
import EntityLinking.Proofs.Graph.Route
import EntityLinking.Proofs.Graph.Subgraph

/-!
# The tree of discoveries

What one search has found is a list of discoveries, newest first, each naming the vertex it was
made from.  This file says what makes such a list a tree rooted in the start, and reads the branches
off it: from every discovered vertex the parents lead back to the start along a simple route whose
length is the vertex's depth, and nothing but the end of a branch is a target.
-/

namespace EntityLinking
namespace Search

variable {kg : KnowledgeGraph} {isTarget : String → Bool} {start : String}
variable {found older : List Discovery} {d : Discovery} {u v w : String}

/-- The knowledge graph leads from one vertex to another in a single step. -/
def Steps (kg : KnowledgeGraph) (u v : String) : Prop :=
  ∃ links, kg.neighbours u = .ok links ∧ ∃ l ∈ links, l.uri = v

/-- Some discovery is of this vertex. -/
def Discovered (found : List Discovery) (u : String) : Prop :=
  ∃ d ∈ found, d.vertex = u

/-- A search from `start` has come by this vertex. -/
def Seen (start : String) (found : List Discovery) (u : String) : Prop :=
  u = start ∨ Discovered found u

/-- A list of discoveries that grew from the start: each new vertex was reached in one step from
a vertex seen before it that is no target itself. -/
inductive Grown (kg : KnowledgeGraph) (isTarget : String → Bool) (start : String) :
    List Discovery → Prop
  | nil : Grown kg isTarget start []
  | cons {d : Discovery} {older : List Discovery}
      (holder : Grown kg isTarget start older)
      (hparent : Seen start older d.parent)
      (hopen : isTarget d.parent = false)
      (hnew : ¬ Seen start older d.vertex)
      (hstep : Steps kg d.parent d.vertex) :
      Grown kg isTarget start (d :: older)

/-- The number of steps from a vertex back to the start. -/
def depth (found : List Discovery) (u : String) : Nat :=
  (trail found u).length

/-- The vertices on the branch from the start, which is left out, to a vertex. -/
def stem (found : List Discovery) (u : String) : List String :=
  ((trail found u).map Edge.target).reverse

theorem discovered_cons :
    Discovered (d :: older) u ↔ u = d.vertex ∨ Discovered older u := by
  simp only [Discovered, List.mem_cons, exists_eq_or_imp]
  rw [eq_comm]

theorem seen_cons : Seen start (d :: older) u ↔ u = d.vertex ∨ Seen start older u := by
  simp only [Seen, discovered_cons]
  exact or_left_comm

theorem State.seen_iff {s : State} : s.seen start u = true ↔ Seen start s.found u := by
  simp [State.seen, Seen, Discovered]

/-! ## Trails -/

theorem trail_cons_self :
    trail (d :: older) d.vertex =
      ⟨d.parent, d.predicate, d.vertex⟩ :: trail older d.parent := by
  simp [trail]

theorem trail_cons_of_ne (hu : u ≠ d.vertex) : trail (d :: older) u = trail older u := by
  simp [trail, Ne.symm hu]

theorem trail_cons_of_seen (hnew : ¬ Seen start older d.vertex) (hu : Seen start older u) :
    trail (d :: older) u = trail older u := by
  apply trail_cons_of_ne
  rintro rfl
  exact hnew hu

theorem depth_cons_self : depth (d :: older) d.vertex = depth older d.parent + 1 := by
  simp [depth, trail_cons_self]

theorem depth_cons_of_seen (hnew : ¬ Seen start older d.vertex) (hu : Seen start older u) :
    depth (d :: older) u = depth older u := by
  rw [depth, depth, trail_cons_of_seen hnew hu]

theorem stem_cons_self : stem (d :: older) d.vertex = stem older d.parent ++ [d.vertex] := by
  simp [stem, trail_cons_self]

theorem stem_cons_of_ne (hu : u ≠ d.vertex) : stem (d :: older) u = stem older u := by
  rw [stem, stem, trail_cons_of_ne hu]

theorem length_stem : (stem found u).length = depth found u := by
  simp [stem, depth]

/-! ## Facts about grown trees -/

theorem Grown.not_discovered_start (h : Grown kg isTarget start found) :
    ¬ Discovered found start := by
  induction h with
  | nil => simp [Discovered]
  | cons holder hparent hopen hnew hstep ih =>
      rw [discovered_cons]
      rintro (hstart | hdiscovered)
      · exact hnew (Or.inl hstart.symm)
      · exact ih hdiscovered

theorem Grown.trail_start (h : Grown kg isTarget start found) : trail found start = [] := by
  induction h with
  | nil => rfl
  | cons holder hparent hopen hnew hstep ih =>
      rw [trail_cons_of_seen hnew (Or.inl rfl)]
      exact ih

theorem Grown.depth_start (h : Grown kg isTarget start found) : depth found start = 0 := by
  rw [depth, h.trail_start]
  rfl

/-- Every edge of a trail is a step of the knowledge graph. -/
theorem Grown.steps_of_mem_trail (h : Grown kg isTarget start found) :
    ∀ {u : String} {e : Edge}, e ∈ trail found u → Steps kg e.source e.target := by
  induction h with
  | nil =>
      intro u e he
      simp [trail] at he
  | @cons d older holder hparent hopen hnew hstep ih =>
      intro u e he
      by_cases hu : u = d.vertex
      · subst hu
        rw [trail_cons_self, List.mem_cons] at he
        rcases he with rfl | he
        · exact hstep
        · exact ih he
      · rw [trail_cons_of_ne hu] at he
        exact ih he

theorem Grown.exists_steps_of_discovered (h : Grown kg isTarget start found)
    (hu : Discovered found u) : ∃ w, Steps kg w u := by
  induction h with
  | nil => simp [Discovered] at hu
  | @cons d older holder hparent hopen hnew hstep ih =>
      rcases discovered_cons.mp hu with rfl | hold
      · exact ⟨d.parent, hstep⟩
      · exact ih hold

theorem Grown.discovered_of_mem_stem (h : Grown kg isTarget start found) :
    ∀ {u w : String}, w ∈ stem found u → Discovered found w := by
  induction h with
  | nil =>
      intro u w hw
      simp [stem, trail] at hw
  | @cons d older holder hparent hopen hnew hstep ih =>
      intro u w hw
      rw [discovered_cons]
      by_cases hu : u = d.vertex
      · subst hu
        rw [stem_cons_self, List.mem_append, List.mem_singleton] at hw
        rcases hw with hw | hw
        · exact Or.inr (ih hw)
        · exact Or.inl hw
      · rw [stem_cons_of_ne hu] at hw
        exact Or.inr (ih hw)

/-- No vertex comes twice on a branch. -/
theorem Grown.nodup_stem (h : Grown kg isTarget start found) :
    ∀ u, (start :: stem found u).Nodup := by
  have hstart : ∀ u, start ∉ stem found u := fun u hmem =>
    h.not_discovered_start (h.discovered_of_mem_stem hmem)
  have hstem : ∀ u, (stem found u).Nodup := by
    clear hstart
    induction h with
    | nil => simp [stem, trail]
    | @cons d older holder hparent hopen hnew hstep ih =>
        intro u
        by_cases hu : u = d.vertex
        · subst hu
          rw [stem_cons_self, List.nodup_append]
          refine ⟨ih d.parent, by simp, ?_⟩
          intro a ha b hb hab
          rw [List.mem_singleton] at hb
          apply hnew
          rw [← hb, ← hab]
          exact Or.inr (holder.discovered_of_mem_stem ha)
        · rw [stem_cons_of_ne hu]
          exact ih u
  intro u
  exact List.nodup_cons.mpr ⟨hstart u, hstem u⟩

/-- A branch ends in the vertex it belongs to. -/
theorem Grown.getLast?_stem (h : Grown kg isTarget start found) :
    ∀ {u : String}, Seen start found u → (start :: stem found u).getLast? = some u := by
  induction h with
  | nil =>
      rintro u (rfl | ⟨d, hd, -⟩)
      · rfl
      · simp at hd
  | @cons d older holder hparent hopen hnew hstep ih =>
      intro u hu
      by_cases hud : u = d.vertex
      · subst hud
        rw [stem_cons_self, ← List.cons_append]
        exact List.getLast?_concat
      · rw [stem_cons_of_ne hud]
        exact ih ((seen_cons.mp hu).resolve_left hud)

/-- Only the end of a branch may be a target. -/
theorem Grown.open_of_mem_stem (h : Grown kg isTarget start found) :
    ∀ {u w : String}, isTarget u = false → w ∈ stem found u → isTarget w = false := by
  induction h with
  | nil =>
      intro u w hu hw
      simp [stem, trail] at hw
  | @cons d older holder hparent hopen hnew hstep ih =>
      intro u w hu hw
      by_cases hud : u = d.vertex
      · subst hud
        rw [stem_cons_self, List.mem_append, List.mem_singleton] at hw
        rcases hw with hw | rfl
        · exact ih hopen hw
        · exact hu
      · rw [stem_cons_of_ne hud] at hw
        exact ih hu hw

/-- The steps of a branch are the edges of the trail. -/
theorem Grown.isChain_stem (h : Grown kg isTarget start found) :
    ∀ {u : String}, Seen start found u →
      (start :: stem found u).IsChain
        fun a b => ∃ e ∈ trail found u, e.source = a ∧ e.target = b := by
  induction h with
  | nil =>
      intro u hu
      simp [stem, trail]
  | @cons d older holder hparent hopen hnew hstep ih =>
      intro u hu
      by_cases hud : u = d.vertex
      · subst hud
        rw [stem_cons_self, trail_cons_self, ← List.cons_append, List.isChain_append]
        refine ⟨?_, List.isChain_singleton _, ?_⟩
        · apply List.IsChain.imp _ (ih hparent)
          rintro a b ⟨e, he, hends⟩
          exact ⟨e, List.mem_cons_of_mem _ he, hends⟩
        · intro a ha b hb
          rw [holder.getLast?_stem hparent] at ha
          refine ⟨_, List.mem_cons_self, Option.some.inj ha, ?_⟩
          simpa using hb
      · rw [stem_cons_of_ne hud, trail_cons_of_ne hud]
        exact ih ((seen_cons.mp hu).resolve_left hud)

/-- Every edge of a trail is a step of the branch. -/
theorem Grown.infix_of_mem_trail (h : Grown kg isTarget start found) :
    ∀ {u : String} {e : Edge}, Seen start found u → e ∈ trail found u →
      [e.source, e.target] <:+: start :: stem found u := by
  induction h with
  | nil =>
      intro u e hu he
      simp [trail] at he
  | @cons d older holder hparent hopen hnew hstep ih =>
      intro u e hu he
      by_cases hud : u = d.vertex
      · subst hud
        rw [trail_cons_self, List.mem_cons] at he
        rw [stem_cons_self, ← List.cons_append]
        rcases he with rfl | he
        · obtain ⟨front, hfront⟩ := List.getLast?_eq_some_iff.mp (holder.getLast?_stem hparent)
          exact ⟨front, [], by simp [hfront]⟩
        · exact (ih hparent he).trans (List.infix_append' [] _ [d.vertex])
      · rw [trail_cons_of_ne hud] at he
        rw [stem_cons_of_ne hud]
        exact ih ((seen_cons.mp hu).resolve_left hud) he

/-- A discovered vertex is the end of a simple route from the start that is as long as the vertex
is deep, passes no target, and takes exactly the edges of the trail. -/
theorem Grown.exists_route (h : Grown kg isTarget start found) :
    ∀ {u : String}, Discovered found u →
      ∃ r : Route, r.source = start ∧ r.target = u ∧ r.length = depth found u ∧
        r.Simple ∧ (∀ w ∈ r.interior, isTarget w = false) ∧
        r.Follows (fun a b => ∃ e ∈ trail found u, e.source = a ∧ e.target = b) ∧
        ∀ e ∈ trail found u, [e.source, e.target] <:+: r.vertices := by
  intro u hu
  have hseen : Seen start found u := Or.inr hu
  obtain ⟨interior, hstem, hopen⟩ :
      ∃ interior, stem found u = interior ++ [u] ∧ ∀ w ∈ interior, isTarget w = false := by
    induction h with
    | nil => simp [Discovered] at hu
    | @cons d older holder hparent hparentOpen hnew hstep ih =>
        by_cases hud : u = d.vertex
        · subst hud
          refine ⟨stem older d.parent, stem_cons_self, ?_⟩
          intro w hw
          exact holder.open_of_mem_stem hparentOpen hw
        · have hold : Discovered older u := (discovered_cons.mp hu).resolve_left hud
          obtain ⟨interior, hstem, hopen⟩ := ih hold (Or.inr hold)
          exact ⟨interior, (stem_cons_of_ne hud).trans hstem, hopen⟩
  have hvertices : (⟨start, interior, u⟩ : Route).vertices = start :: stem found u := by
    rw [hstem]
    rfl
  refine ⟨⟨start, interior, u⟩, rfl, rfl, ?_, ?_, hopen, ?_, ?_⟩
  · rw [← length_stem, hstem]
    simp [Route.length]
  · rw [Route.Simple, hvertices]
    exact h.nodup_stem u
  · rw [Route.Follows, hvertices]
    exact h.isChain_stem hseen
  · rw [hvertices]
    intro e he
    exact h.infix_of_mem_trail hseen he

/-! ## The edges that a search adds -/

/-- The edges of all branches that end in a target, in the order in which the targets were
found. -/
def branches (isTarget : String → Bool) : List Discovery → List Edge
  | [] => []
  | d :: older =>
    branches isTarget older ++
      if isTarget d.vertex then trail (d :: older) d.vertex else []

theorem Grown.mem_branches_iff (h : Grown kg isTarget start found) {e : Edge} :
    e ∈ branches isTarget found ↔
      ∃ t, Discovered found t ∧ isTarget t = true ∧ e ∈ trail found t := by
  induction h with
  | nil => simp [branches, Discovered]
  | @cons d older holder hparent hopen hnew hstep ih =>
      have htrail : ∀ {t : String}, Discovered older t →
          trail (d :: older) t = trail older t := fun ht =>
        trail_cons_of_seen hnew (Or.inr ht)
      rw [branches, List.mem_append, ih]
      constructor
      · rintro (⟨t, ht, htarget, he⟩ | he)
        · exact ⟨t, discovered_cons.mpr (Or.inr ht), htarget, by rwa [htrail ht]⟩
        · split at he
          next htarget => exact ⟨d.vertex, discovered_cons.mpr (Or.inl rfl), htarget, he⟩
          next => simp at he
      · rintro ⟨t, ht, htarget, he⟩
        rcases discovered_cons.mp ht with rfl | hold
        · exact Or.inr (by rwa [if_pos htarget])
        · exact Or.inl ⟨t, hold, htarget, by rwa [← htrail hold]⟩

end Search
end EntityLinking
