import Mathlib.Data.PFun
import EntityLinking.Proofs.Search.Exploration

/-!
# The search as a loop over a queue

A search by distances can keep all that waits in a single queue, each vertex with its depth, beside
the vertices that have been visited and a table of parents.  Written like that, nothing tells at
first that the loop over the queue ends, nor the walk along the parents that a target starts: both
are partial functions here, which have no value where they run on forever.  They always have one.
The walk along the parents passes the edges of the trail, and the loop does what exploring distance
by distance does.
-/

namespace EntityLinking
namespace Search

/-- A vertex that waits, with its depth as a machine word. -/
structure Queued where
  vertex : String
  depth : UInt64
deriving DecidableEq

structure Worklist where
  /-- What waits to be explored, the front first. -/
  queue : List Queued
  visited : List String
  /-- All that has been written into the table of parents, newest first; what counts for a vertex is
  what was written for it last. -/
  parents : List Discovery
  graph : Subgraph

/-- One step along the parents: the vertex has none, or the edge to its parent is passed. -/
def climbStep (parents : List Discovery) (place : String × List Edge) :
    List Edge ⊕ String × List Edge :=
  match parents.find? (·.vertex = place.1) with
  | none => .inl place.2
  | some d => .inr (d.parent, place.2 ++ [⟨d.parent, d.predicate, place.1⟩])

/-- Follows the parents of a vertex as long as there are any, and lists the edges on the way. -/
def climb (parents : List Discovery) (u : String) : Part (List Edge) :=
  PFun.fix (PFun.lift (climbStep parents)) (u, [])

/-- Looks at one neighbour of the vertex that was taken from the queue. -/
def lookAt (isTarget : String → Bool) (taken : Queued) (w : Worklist) (link : Link) :
    Part Worklist :=
  if w.visited.contains link.uri then Part.some w
  else
    let visited := link.uri :: w.visited
    let parents := ⟨link.uri, taken.vertex, link.predicate⟩ :: w.parents
    if isTarget link.uri then
      (climb parents link.uri).map fun path => ⟨w.queue, visited, parents, w.graph.addEdges path⟩
    else Part.some ⟨w.queue ++ [⟨link.uri, taken.depth + 1⟩], visited, parents, w.graph⟩

/-- One turn of the loop: a vertex is taken from the queue if there is one, and explored unless it
is at the greatest distance. -/
def turn (kg : KnowledgeGraph) (isTarget : String → Bool) (maxDistance : UInt64) :
    Worklist →. Except GraphFault Worklist ⊕ Worklist := fun w =>
  match w.queue with
  | [] => Part.some (.inl (.ok w))
  | taken :: rest =>
    if maxDistance ≤ taken.depth then Part.some (.inr { w with queue := rest })
    else
      match kg.neighbours taken.vertex with
      | .error fault => Part.some (.inl (.error fault))
      | .ok links => (links.foldlM (lookAt isTarget taken) { w with queue := rest }).map .inr

/-- Turns the loop until the queue is empty or a fault has been met. -/
def work (kg : KnowledgeGraph) (isTarget : String → Bool) (maxDistance : UInt64) (w : Worklist) :
    Part (Except GraphFault Worklist) :=
  PFun.fix (turn kg isTarget maxDistance) w

/-- The start alone waits, and it has been visited. -/
def Worklist.opening (start : String) (g : Subgraph) : Worklist :=
  ⟨[⟨start, 0⟩], [start], [], g⟩

/-- What is left of a search in the end. -/
def Worklist.closing (start : String) (s : State) : Worklist :=
  ⟨[], s.found.map Discovery.vertex ++ [start], s.found, s.graph⟩

variable {kg : KnowledgeGraph} {isTarget : String → Bool} {start u v : String}
variable {found : List Discovery} {d : Discovery} {s s' : State} {link : Link}
variable {n maxDistance : UInt64} {todo : List String} {taken : Queued} {w : Worklist}

/-! ## Along the parents -/

theorem trail_of_find?_eq_none (hfind : found.find? (·.vertex = u) = none) :
    trail found u = [] := by
  induction found with
  | nil => rfl
  | cons d older ih =>
      rw [List.find?_cons] at hfind
      split at hfind
      next => simp at hfind
      next hne =>
        have hu : u ≠ d.vertex := fun heq => by simp [heq] at hne
        rw [trail_cons_of_ne hu, ih hfind]

/-- The trail of a vertex goes on as the trail of its parent, also when all discoveries are looked
through for it. -/
theorem Grown.trail_of_find? (h : Grown kg isTarget start found)
    (hfind : found.find? (·.vertex = u) = some d) :
    Seen start found d.parent ∧
      trail found u = ⟨d.parent, d.predicate, u⟩ :: trail found d.parent := by
  induction h with
  | nil => simp at hfind
  | @cons newest older holder hparent hopen hnew hstep ih =>
      rw [List.find?_cons] at hfind
      split at hfind
      next heq =>
        obtain rfl : newest = d := Option.some.inj hfind
        obtain rfl : newest.vertex = u := of_decide_eq_true heq
        rw [trail_cons_self, trail_cons_of_seen hnew hparent]
        exact ⟨seen_cons.mpr (Or.inr hparent), rfl⟩
      next hne =>
        have hu : u ≠ newest.vertex := fun heq => by simp [heq] at hne
        obtain ⟨hseen, htrail⟩ := ih hfind
        rw [trail_cons_of_ne hu, trail_cons_of_seen hnew hseen]
        exact ⟨seen_cons.mpr (Or.inr hseen), htrail⟩

/-- Each step along the parents shortens the trail, so the walk ends. -/
theorem Grown.climb_from (h : Grown kg isTarget start found) (u : String) (path : List Edge) :
    path ++ trail found u ∈
      PFun.fix (PFun.lift (climbStep found)) (u, path) := by
  induction hdepth : depth found u using Nat.strong_induction_on generalizing u path with
  | _ depth ih =>
      apply PFun.mem_fix_iff.mpr
      cases hfind : found.find? (·.vertex = u) with
      | none =>
          have hstep : climbStep found (u, path) = .inl path := by simp only [climbStep, hfind]
          rw [trail_of_find?_eq_none hfind, List.append_nil]
          exact Or.inl (Part.mem_some_iff.mpr hstep.symm)
      | some d =>
          obtain ⟨-, htrail⟩ := h.trail_of_find? hfind
          have hless : Search.depth found d.parent < depth := by
            rw [← hdepth, Search.depth, Search.depth, htrail, List.length_cons]
            exact Nat.lt_succ_self _
          have hstep : climbStep found (u, path) =
              .inr (d.parent, path ++ [⟨d.parent, d.predicate, u⟩]) := by
            simp only [climbStep, hfind]
          have hrest := ih _ hless d.parent (path ++ [⟨d.parent, d.predicate, u⟩]) rfl
          rw [List.append_assoc, List.singleton_append, ← htrail] at hrest
          exact Or.inr ⟨_, Part.mem_some_iff.mpr hstep.symm, hrest⟩

theorem Grown.climb_eq_trail (h : Grown kg isTarget start found) (u : String) :
    climb found u = Part.some (trail found u) :=
  Part.eq_some_iff.mpr (h.climb_from u [])

/-- The edges of a trail hang together and lead to the start. -/
theorem Grown.cons_sources_trail (h : Grown kg isTarget start found) (hu : Seen start found u) :
    u :: (trail found u).map Edge.source = (trail found u).map Edge.target ++ [start] := by
  induction h generalizing u with
  | nil =>
      rcases hu with rfl | ⟨d, hd, -⟩
      · rfl
      · simp at hd
  | @cons d older holder hparent hopen hnew hstep ih =>
      by_cases hud : u = d.vertex
      · subst hud
        rw [trail_cons_self, List.map_cons, ih hparent]
        rfl
      · rw [trail_cons_of_ne hud]
        exact ih ((seen_cons.mp hu).resolve_left hud)

/-! ## One neighbour -/

theorem lookAt_of_visited (h : w.visited.contains link.uri = true) :
    lookAt isTarget taken w link = Part.some w := by
  rw [lookAt, if_pos h]

theorem lookAt_of_target {path : List Edge} (h : ¬ w.visited.contains link.uri = true)
    (ht : isTarget link.uri = true)
    (hpath : climb (⟨link.uri, taken.vertex, link.predicate⟩ :: w.parents) link.uri =
      Part.some path) :
    lookAt isTarget taken w link = Part.some ⟨w.queue, link.uri :: w.visited,
      ⟨link.uri, taken.vertex, link.predicate⟩ :: w.parents, w.graph.addEdges path⟩ := by
  rw [lookAt, if_neg h, if_pos ht, hpath, Part.map_some]

theorem lookAt_of_open (h : ¬ w.visited.contains link.uri = true)
    (ht : isTarget link.uri = false) :
    lookAt isTarget taken w link = Part.some ⟨w.queue ++ [⟨link.uri, taken.depth + 1⟩],
      link.uri :: w.visited, ⟨link.uri, taken.vertex, link.predicate⟩ :: w.parents, w.graph⟩ := by
  rw [lookAt, if_neg h, if_neg (by simp [ht])]

theorem Grown.visit (h : Grown kg (fun _ => false) start s.found) (hu : Seen start s.found u)
    (hstep : Steps kg u link.uri) :
    Grown kg (fun _ => false) start (visit isTarget start u s link).found := by
  by_cases hseen : Seen start s.found link.uri
  · rwa [visit_of_seen hseen]
  · rw [found_visit_of_new hseen]
    exact h.cons hu rfl hseen hstep

/-- The state of a search on its way through the vertices at one distance, as a worklist: what is
still to be explored at this distance waits before what has been found for the next one. -/
def Worklist.ofState (start : String) (n : UInt64) (todo : List String) (s : State) : Worklist :=
  ⟨(todo.map fun u => ⟨u, n⟩) ++ s.next.map fun u => ⟨u, n + 1⟩,
    s.found.map Discovery.vertex ++ [start], s.found, s.graph⟩

theorem contains_visited_iff :
    (found.map Discovery.vertex ++ [start]).contains u = true ↔ Seen start found u := by
  rw [List.contains_iff_mem, List.mem_append, List.mem_map, List.mem_singleton, Seen, or_comm,
    Discovered]

theorem lookAt_ofState (h : Grown kg (fun _ => false) start s.found) (hu : Seen start s.found u)
    (hstep : Steps kg u link.uri) :
    lookAt isTarget ⟨u, n⟩ (.ofState start n todo s) link =
      Part.some (.ofState start n todo (visit isTarget start u s link)) := by
  by_cases hseen : Seen start s.found link.uri
  · rw [visit_of_seen hseen, lookAt_of_visited (contains_visited_iff.mpr hseen)]
  · have hgrown := h.cons (d := ⟨link.uri, u, link.predicate⟩) hu rfl hseen hstep
    have hnew : ¬ (Worklist.ofState start n todo s).visited.contains link.uri = true :=
      fun hmem => hseen (contains_visited_iff.mp hmem)
    cases ht : isTarget link.uri with
    | true =>
        rw [lookAt_of_target hnew ht (hgrown.climb_eq_trail link.uri), visit_of_target hseen ht]
        rfl
    | false =>
        rw [lookAt_of_open hnew ht, visit_of_open hseen ht]
        simp [Worklist.ofState]

/-! ## Turns of the loop -/

theorem turn_of_nil (hqueue : w.queue = []) :
    turn kg isTarget maxDistance w = Part.some (.inl (.ok w)) := by
  simp only [turn, hqueue]

theorem turn_of_deep {rest : List Queued} (hqueue : w.queue = taken :: rest)
    (hdeep : maxDistance ≤ taken.depth) :
    turn kg isTarget maxDistance w = Part.some (.inr { w with queue := rest }) := by
  simp only [turn, hqueue, if_pos hdeep]

theorem turn_of_fault {rest : List Queued} {fault : GraphFault} (hqueue : w.queue = taken :: rest)
    (hnear : taken.depth < maxDistance) (hfault : kg.neighbours taken.vertex = .error fault) :
    turn kg isTarget maxDistance w = Part.some (.inl (.error fault)) := by
  simp only [turn, hqueue, if_neg (UInt64.not_le.mpr hnear), hfault]

theorem turn_of_links {rest : List Queued} {links : List Link} (hqueue : w.queue = taken :: rest)
    (hnear : taken.depth < maxDistance) (hlinks : kg.neighbours taken.vertex = .ok links) :
    turn kg isTarget maxDistance w =
      (links.foldlM (lookAt isTarget taken) { w with queue := rest }).map .inr := by
  simp only [turn, hqueue, if_neg (UInt64.not_le.mpr hnear), hlinks]

theorem work_of_stop {result : Except GraphFault Worklist}
    (h : turn kg isTarget maxDistance w = Part.some (.inl result)) :
    work kg isTarget maxDistance w = Part.some result :=
  Part.eq_some_iff.mpr (PFun.fix_stop (Part.eq_some_iff.mp h))

theorem work_of_turn {w' : Worklist}
    (h : turn kg isTarget maxDistance w = Part.some (.inr w')) :
    work kg isTarget maxDistance w = work kg isTarget maxDistance w' :=
  PFun.fix_fwd_eq (Part.eq_some_iff.mp h)

/-! ## One distance -/

/-- What a search has found hangs together, and it goes on from vertices that it has seen. -/
structure Tidy (kg : KnowledgeGraph) (start : String) (s : State) : Prop where
  grown : Grown kg (fun _ => false) start s.found
  next : ∀ u ∈ s.next, Seen start s.found u

theorem Tidy.visit (h : Tidy kg start s) (hu : Seen start s.found u)
    (hstep : Steps kg u link.uri) : Tidy kg start (visit isTarget start u s link) :=
  ⟨h.grown.visit hu hstep, seen_of_mem_next_visit h.next⟩

theorem Tidy.visits (isTarget : String → Bool) (n : UInt64) (todo : List String)
    {links : List Link} :
    ∀ {s : State}, Tidy kg start s → Seen start s.found u → (∀ l ∈ links, Steps kg u l.uri) →
      Tidy kg start (links.foldl (Search.visit isTarget start u) s) ∧
        links.foldlM (lookAt isTarget ⟨u, n⟩) (.ofState start n todo s) =
          Part.some (.ofState start n todo (links.foldl (Search.visit isTarget start u) s)) := by
  induction links with
  | nil => exact fun h _ _ => ⟨h, rfl⟩
  | cons link links ih =>
      intro s h hu hsteps
      have hstep := hsteps link List.mem_cons_self
      rw [List.foldlM_cons, lookAt_ofState h.grown hu hstep, Part.bind_eq_bind, Part.bind_some]
      exact ih (h.visit hu hstep) (seen_visit hu) fun l hl => hsteps l (List.mem_cons_of_mem _ hl)

/-- The loop explores what waits at one distance as a search does, and comes to the next one. -/
theorem Tidy.exploreLevel (isTarget : String → Bool) (hn : n < maxDistance) :
    ∀ {todo : List String} {s : State}, Tidy kg start s → (∀ u ∈ todo, Seen start s.found u) →
      (∀ s', (exploreLevel kg isTarget start todo s).outcome = .ok s' → Tidy kg start s') ∧
        work kg isTarget maxDistance (.ofState start n todo s) =
          match (exploreLevel kg isTarget start todo s).outcome with
          | .error fault => Part.some (.error fault)
          | .ok s' => work kg isTarget maxDistance (.ofState start n [] s') := by
  intro todo
  induction todo with
  | nil =>
      intro s h _
      refine ⟨?_, rfl⟩
      rintro s' hrun
      obtain rfl : s = s' := by simpa [Search.exploreLevel] using hrun
      exact h
  | cons u rest ih =>
      intro s h hseen
      have hqueue : (Worklist.ofState start n (u :: rest) s).queue =
          ⟨u, n⟩ :: (Worklist.ofState start n rest s).queue := rfl
      rw [Search.exploreLevel, Recorded.bind_eq, Recorded.outcome_andThen]
      cases hlinks : kg.neighbours u with
      | error fault =>
          rw [work_of_stop (turn_of_fault hqueue hn hlinks)]
          simp [askNeighbours, hlinks, Except.bind]
      | ok links =>
          have hu := hseen u List.mem_cons_self
          have hsteps : ∀ l ∈ links, Steps kg u l.uri := fun l hl => ⟨links, hlinks, l, hl, rfl⟩
          obtain ⟨htidy, hfold⟩ := h.visits isTarget n rest hu hsteps
          have hturn : turn kg isTarget maxDistance (.ofState start n (u :: rest) s) = Part.some
              (.inr (.ofState start n rest (links.foldl (Search.visit isTarget start u) s))) := by
            rw [turn_of_links hqueue hn hlinks]
            exact (congrArg (Part.map Sum.inr) hfold).trans (Part.map_some _ _)
          rw [work_of_turn hturn]
          simp only [askNeighbours, hlinks, Except.bind]
          exact ih htidy fun w hw => seen_visits (hseen w (List.mem_cons_of_mem _ hw))

/-- Vertices at the greatest distance are taken from the queue and left alone. -/
theorem work_ofState_of_le (hn : maxDistance ≤ n) :
    work kg isTarget maxDistance (.ofState start n todo { s with next := [] }) =
      Part.some (.ok (.closing start s)) := by
  induction todo with
  | nil => exact work_of_stop (turn_of_nil rfl)
  | cons u rest ih =>
      have hqueue : (Worklist.ofState start n (u :: rest) { s with next := [] }).queue =
          ⟨u, n⟩ :: (Worklist.ofState start n rest { s with next := [] }).queue := rfl
      rw [work_of_turn (turn_of_deep hqueue hn)]
      exact ih

/-! ## All distances -/

theorem toNat_succ_of_lt (hn : n < maxDistance) : (n + 1).toNat = n.toNat + 1 := by
  have hbound := UInt64.lt_iff_toNat_lt.mp hn
  have hword := maxDistance.toNat_lt
  rw [UInt64.toNat_add, UInt64.toNat_one]
  omega

/-- What waits for the next distance is what is explored there. -/
theorem Worklist.ofState_nil (start : String) (n : UInt64) (s : State) :
    ofState start n [] s = ofState start (n + 1) s.next { s with next := [] } := by
  simp [ofState]

/-- From the vertices of one distance on, the loop ends as the search does. -/
theorem work_ofState :
    ∀ {distance : Nat} {n : UInt64} {frontier : List String} {s : State},
      n.toNat + distance = maxDistance.toNat → Grown kg (fun _ => false) start s.found →
        (∀ u ∈ frontier, Seen start s.found u) →
          work kg isTarget maxDistance (.ofState start n frontier { s with next := [] }) =
            Part.some ((explore kg isTarget start distance frontier s).outcome.map
              (Worklist.closing start)) := by
  intro distance
  induction distance with
  | zero =>
      intro n frontier s hdistance _ _
      exact work_ofState_of_le (UInt64.le_iff_toNat_le.mpr hdistance.ge)
  | succ distance ih =>
      intro n frontier s hdistance hgrown hseen
      cases frontier with
      | nil => exact work_of_stop (turn_of_nil rfl)
      | cons u rest =>
          have hn : n < maxDistance := UInt64.lt_iff_toNat_lt.mpr (by omega)
          have htidy : Tidy kg start { s with next := [] } := ⟨hgrown, by simp⟩
          obtain ⟨htidy', hlevel⟩ := htidy.exploreLevel isTarget hn hseen
          rw [hlevel, explore, Recorded.bind_eq, Recorded.outcome_andThen]
          cases hrun :
            (exploreLevel kg isTarget start (u :: rest) { s with next := [] }).outcome with
          | error fault => rfl
          | ok s' =>
              have hs' := htidy' s' hrun
              simp only [Except.bind, Worklist.ofState_nil]
              apply ih _ hs'.grown hs'.next
              rw [toNat_succ_of_lt hn]
              omega

/-- The loop over the queue ends, and with what the search by distances ends with. -/
theorem work_opening (kg : KnowledgeGraph) (isTarget : String → Bool) (start : String)
    (maxDistance : UInt64) (g : Subgraph) :
    work kg isTarget maxDistance (.opening start g) =
      Part.some ((explore kg isTarget start maxDistance.toNat [start] ⟨[], [], g⟩).outcome.map
        (Worklist.closing start)) := by
  have hseen : ∀ u ∈ [start], Seen start [] u := fun u hu => Or.inl (List.mem_singleton.mp hu)
  exact work_ofState (n := 0) (s := ⟨[], [], g⟩) (by simp) Grown.nil hseen

end Search
end EntityLinking
