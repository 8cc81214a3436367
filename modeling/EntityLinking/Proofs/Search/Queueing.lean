import EntityLinking.Proofs.Search.Linking
import EntityLinking.Proofs.Search.Worklist

/-!
# What waits in the queue

The loop over the queue is followed from moment to moment.  Whatever the graph, the depths along the
queue never fall, and no two vertices in it are more than one apart; so a vertex that is put behind
the others is one step deeper than the vertex just taken, and none is deeper than the greatest
distance.  A vertex is written into the table of parents when it is visited, and it is visited once.
So the table stays a tree: from any vertex the parents lead to the start in as many steps as the
vertex is deep.
-/

namespace EntityLinking
namespace Search

/-- A moment of the loop over the queue: what has been taken so far, oldest first, the neighbours of
the last one taken that are still to be looked at, and the worklist. -/
inductive Moment (kg : KnowledgeGraph) (isTarget : String → Bool) (start : String)
    (maxDistance : UInt64) (g : Subgraph) : List Queued → List Link → Worklist → Prop
  | opening : Moment kg isTarget start maxDistance g [] [] (.opening start g)
  | pass {taken rest : List Queued} {e : Queued} {w : Worklist}
      (before : Moment kg isTarget start maxDistance g taken [] w)
      (hqueue : w.queue = e :: rest) (hdeep : maxDistance ≤ e.depth) :
      Moment kg isTarget start maxDistance g (taken ++ [e]) [] { w with queue := rest }
  | take {taken rest : List Queued} {e : Queued} {links : List Link} {w : Worklist}
      (before : Moment kg isTarget start maxDistance g taken [] w)
      (hqueue : w.queue = e :: rest) (hnear : e.depth < maxDistance)
      (hlinks : kg.neighbours e.vertex = .ok links) :
      Moment kg isTarget start maxDistance g (taken ++ [e]) links { w with queue := rest }
  | look {taken : List Queued} {e : Queued} {link : Link} {pending : List Link} {w w' : Worklist}
      (before : Moment kg isTarget start maxDistance g (taken ++ [e]) (link :: pending) w)
      (hlook : w' ∈ lookAt isTarget e w link) :
      Moment kg isTarget start maxDistance g (taken ++ [e]) pending w'

variable {kg : KnowledgeGraph} {isTarget : String → Bool} {start u : String} {g : Subgraph}
variable {maxDistance : UInt64} {taken : List Queued} {pending links : List Link}
variable {w w' : Worklist} {e : Queued} {link : Link} {d : Discovery} {older : List Discovery}

/-! ## Entries -/

/-- An entry of the queue stands for a vertex that has been seen, under its depth. -/
structure Placed (start : String) (maxDistance : UInt64) (parents : List Discovery) (e : Queued) :
    Prop where
  seen : Seen start parents e.vertex
  depth_eq : e.depth.toNat = depth parents e.vertex
  depth_le : e.depth ≤ maxDistance

theorem Placed.cons (h : Placed start maxDistance older e) (hnew : ¬ Seen start older d.vertex) :
    Placed start maxDistance (d :: older) e where
  seen := seen_cons.mpr (Or.inr h.seen)
  depth_eq := by rw [depth_cons_of_seen hnew h.seen, h.depth_eq]
  depth_le := h.depth_le

/-- A vertex that is discovered from an entry above the greatest distance is one step deeper, and
the word for its depth does not overflow. -/
theorem Placed.next (h : Placed start maxDistance older e) (hnear : e.depth < maxDistance)
    (hparent : d.parent = e.vertex) :
    Placed start maxDistance (d :: older) ⟨d.vertex, e.depth + 1⟩ where
  seen := seen_cons.mpr (Or.inl rfl)
  depth_eq := by rw [toNat_succ_of_lt hnear, depth_cons_self, hparent, h.depth_eq]
  depth_le := by
    have hless := UInt64.lt_iff_toNat_lt.mp hnear
    rw [UInt64.le_iff_toNat_le, toNat_succ_of_lt hnear]
    omega

/-! ## The invariant of the loop -/

/-- What holds at every moment.  The entries taken from the queue and those that wait in it are one
list, which only grows at its end. -/
structure Sound (kg : KnowledgeGraph) (start : String) (maxDistance : UInt64) (taken : List Queued)
    (pending : List Link) (w : Worklist) : Prop where
  grown : Grown kg (fun _ => false) start w.parents
  visited_eq : w.visited = w.parents.map Discovery.vertex ++ [start]
  placed : ∀ e ∈ taken ++ w.queue, Placed start maxDistance w.parents e
  once : ((taken ++ w.queue).map Queued.vertex).Nodup
  ordered : (taken ++ w.queue).Pairwise fun e f => e.depth ≤ f.depth
  /-- Nothing that waits is more than one step deeper than what waits too or was taken last. -/
  near : ∀ e f, e ∈ taken.getLast? ∨ e ∈ w.queue → f ∈ w.queue →
    f.depth.toNat ≤ e.depth.toNat + 1
  parent : ∀ d ∈ w.parents, ∃ e ∈ taken, e.vertex = d.parent ∧ e.depth < maxDistance
  asked : ∀ l ∈ pending, ∃ e ∈ taken.getLast?, e.depth < maxDistance ∧ Steps kg e.vertex l.uri

theorem sound_opening : Sound kg start maxDistance [] [] (.opening start g) where
  grown := Grown.nil
  visited_eq := rfl
  placed := by
    intro e he
    obtain rfl : e = ⟨start, 0⟩ := List.mem_singleton.mp he
    exact ⟨Or.inl rfl, rfl, UInt64.zero_le⟩
  once := List.nodup_singleton start
  ordered := List.pairwise_singleton _ _
  near := by
    rintro e f (he | he) hf
    · simp at he
    · rw [List.mem_singleton.mp he, List.mem_singleton.mp hf]
      exact Nat.le_succ _
  parent := by simp [Worklist.opening]
  asked := by simp

/-- Taking the front entry changes nothing in the list of all entries. -/
theorem Sound.front (h : Sound kg start maxDistance taken [] w) {rest : List Queued}
    (hqueue : w.queue = e :: rest)
    (hasked : ∀ l ∈ links, e.depth < maxDistance ∧ Steps kg e.vertex l.uri) :
    Sound kg start maxDistance (taken ++ [e]) links { w with queue := rest } := by
  have hentries : taken ++ [e] ++ rest = taken ++ w.queue := by
    rw [hqueue, List.append_assoc, List.singleton_append]
  constructor
  case grown => exact h.grown
  case visited_eq => exact h.visited_eq
  case placed => rw [hentries]; exact h.placed
  case once => rw [hentries]; exact h.once
  case ordered => rw [hentries]; exact h.ordered
  case near =>
    intro x f hx hf
    refine h.near x f (Or.inr ?_) ?_
    · rw [hqueue]
      rcases hx with hx | hx
      · obtain rfl : e = x := by simpa using hx
        exact List.mem_cons_self
      · exact List.mem_cons_of_mem _ hx
    · rw [hqueue]
      exact List.mem_cons_of_mem _ hf
  case parent =>
    intro d hd
    obtain ⟨x, hx, hparent⟩ := h.parent d hd
    exact ⟨x, List.mem_append_left _ hx, hparent⟩
  case asked =>
    intro l hl
    exact ⟨e, by simp, hasked l hl⟩

theorem Sound.rest (h : Sound kg start maxDistance taken (link :: pending) w) :
    Sound kg start maxDistance taken pending w :=
  { h with asked := fun l hl => h.asked l (List.mem_cons_of_mem _ hl) }

theorem Sound.asked_head (h : Sound kg start maxDistance (taken ++ [e]) (link :: pending) w) :
    e.depth < maxDistance ∧ Steps kg e.vertex link.uri := by
  obtain ⟨last, hlast, hasked⟩ := h.asked link List.mem_cons_self
  obtain rfl : e = last := by simpa using hlast
  exact hasked

/-- Visiting a new vertex adds an entry to the table of parents and keeps all others. -/
theorem Sound.discover (h : Sound kg start maxDistance (taken ++ [e]) (link :: pending) w)
    (hnew : ¬ Seen start w.parents link.uri) (g : Subgraph) :
    Sound kg start maxDistance (taken ++ [e]) pending ⟨w.queue, link.uri :: w.visited,
      ⟨link.uri, e.vertex, link.predicate⟩ :: w.parents, g⟩ := by
  obtain ⟨hnear, hstep⟩ := h.asked_head
  have hmem : e ∈ taken ++ [e] := by simp
  have hseen := (h.placed e (List.mem_append_left _ hmem)).seen
  constructor
  case grown => exact h.grown.cons hseen rfl hnew hstep
  case visited_eq => rw [h.visited_eq]; rfl
  case placed =>
    intro f hf
    exact (h.placed f hf).cons hnew
  case once => exact h.once
  case ordered => exact h.ordered
  case near => exact h.near
  case parent =>
    intro d hd
    rcases List.mem_cons.mp hd with rfl | hd
    · exact ⟨e, hmem, rfl, hnear⟩
    · exact h.parent d hd
  case asked =>
    intro l hl
    exact h.asked l (List.mem_cons_of_mem _ hl)

theorem Sound.depth_le_last (h : Sound kg start maxDistance (taken ++ [e]) pending w) {f : Queued}
    (hf : f ∈ taken ++ [e]) : f.depth ≤ e.depth := by
  have hordered := (List.pairwise_append.mp h.ordered).1
  rcases List.mem_append.mp hf with hf | hf
  · exact (List.pairwise_append.mp hordered).2.2 f hf e (List.mem_singleton_self e)
  · rw [List.mem_singleton.mp hf]
    exact UInt64.le_refl _

/-- A new entry one step deeper than the last one taken may wait behind all others. -/
theorem Sound.push (h : Sound kg start maxDistance (taken ++ [e]) pending w) {new : Queued}
    (hplaced : Placed start maxDistance w.parents new)
    (hfresh : new.vertex ∉ (taken ++ [e] ++ w.queue).map Queued.vertex)
    (hdepth : new.depth.toNat = e.depth.toNat + 1) :
    Sound kg start maxDistance (taken ++ [e]) pending { w with queue := w.queue ++ [new] } := by
  have hlast : ∀ f ∈ w.queue, f.depth.toNat ≤ e.depth.toNat + 1 := fun f hf =>
    h.near e f (Or.inl (by simp)) hf
  have hbehind : ∀ f ∈ w.queue, e.depth.toNat ≤ f.depth.toNat := fun f hf =>
    UInt64.le_iff_toNat_le.mp ((List.pairwise_append.mp h.ordered).2.2 e (by simp) f hf)
  constructor
  case grown => exact h.grown
  case visited_eq => exact h.visited_eq
  case placed =>
    intro f hf
    rw [← List.append_assoc, List.mem_append, List.mem_singleton] at hf
    rcases hf with hf | rfl
    · exact h.placed f hf
    · exact hplaced
  case once =>
    rw [← List.append_assoc, List.map_append, List.map_singleton]
    exact List.nodup_append.mpr ⟨h.once, List.nodup_singleton _, by
      rintro a ha b hb rfl
      rw [List.mem_singleton.mp hb] at ha
      exact hfresh ha⟩
  case ordered =>
    rw [← List.append_assoc, List.pairwise_append]
    refine ⟨h.ordered, List.pairwise_singleton _ _, ?_⟩
    intro f hf x hx
    rw [List.mem_singleton.mp hx, UInt64.le_iff_toNat_le, hdepth]
    rcases List.mem_append.mp hf with hf | hf
    · have hle := UInt64.le_iff_toNat_le.mp (h.depth_le_last hf)
      omega
    · exact hlast f hf
  case near =>
    intro x f hx hf
    have hx' : e.depth.toNat ≤ x.depth.toNat := by
      rcases hx with hx | hx
      · obtain rfl : e = x := by simpa using hx
        exact le_rfl
      · rcases List.mem_append.mp hx with hx | hx
        · exact hbehind x hx
        · rw [List.mem_singleton.mp hx, hdepth]
          exact Nat.le_succ _
    have hf' : f.depth.toNat ≤ e.depth.toNat + 1 := by
      rcases List.mem_append.mp hf with hf | hf
      · exact hlast f hf
      · rw [List.mem_singleton.mp hf, hdepth]
    omega
  case parent => exact h.parent
  case asked => exact h.asked

/-- The walk that looking at one neighbour may start ends, and the invariant is kept. -/
theorem Sound.exists_look (h : Sound kg start maxDistance (taken ++ [e]) (link :: pending) w)
    (isTarget : String → Bool) : ∃ w', lookAt isTarget e w link = Part.some w' ∧
      Sound kg start maxDistance (taken ++ [e]) pending w' := by
  have hvisited : w.visited.contains link.uri = true ↔ Seen start w.parents link.uri := by
    rw [h.visited_eq]
    exact contains_visited_iff
  by_cases hseen : Seen start w.parents link.uri
  · exact ⟨w, lookAt_of_visited (hvisited.mpr hseen), h.rest⟩
  · have hnew := fun hmem => hseen (hvisited.mp hmem)
    have hfound := h.discover hseen
    cases ht : isTarget link.uri with
    | true =>
        have hpath := (hfound w.graph).grown.climb_eq_trail link.uri
        exact ⟨_, lookAt_of_target hnew ht hpath, hfound _⟩
    | false =>
        refine ⟨_, lookAt_of_open hnew ht, ?_⟩
        have hnear := h.asked_head.1
        have hplaced :=
          (h.placed e (by simp)).next (d := ⟨link.uri, e.vertex, link.predicate⟩) hnear rfl
        apply (hfound w.graph).push hplaced _ (toNat_succ_of_lt hnear)
        intro hmem
        obtain ⟨f, hf, hvertex⟩ := List.mem_map.mp hmem
        rw [← show f.vertex = link.uri from hvertex] at hseen
        exact hseen (h.placed f hf).seen

/-- The run lemma. -/
theorem Moment.sound (h : Moment kg isTarget start maxDistance g taken pending w) :
    Sound kg start maxDistance taken pending w := by
  induction h with
  | opening => exact sound_opening
  | pass before hqueue hdeep ih => exact ih.front hqueue (by simp)
  | take before hqueue hnear hlinks ih =>
      exact ih.front hqueue fun l hl => ⟨hnear, _, hlinks, l, hl, rfl⟩
  | look before hlook ih =>
      obtain ⟨next, hnext, hsound⟩ := ih.exists_look isTarget
      rw [hnext, Part.mem_some_iff] at hlook
      rwa [hlook]

/-! ## The end of the loop -/

theorem Moment.looks (h : Moment kg isTarget start maxDistance g (taken ++ [e]) links w)
    (hlooks : w' ∈ links.foldlM (lookAt isTarget e) w) :
    Moment kg isTarget start maxDistance g (taken ++ [e]) [] w' := by
  induction links generalizing w with
  | nil =>
      obtain rfl : w' = w := Part.mem_some_iff.mp hlooks
      exact h
  | cons link links ih =>
      rw [List.foldlM_cons] at hlooks
      obtain ⟨next, hlook, hrest⟩ := Part.mem_bind_iff.mp hlooks
      exact ih (h.look hlook) hrest

/-- What a turn of the loop can come to. -/
theorem turn_cases {next : Except GraphFault Worklist ⊕ Worklist}
    (hturn : next ∈ turn kg isTarget maxDistance w) :
    (w.queue = [] ∧ next = .inl (.ok w)) ∨ ∃ e rest, w.queue = e :: rest ∧
      ((maxDistance ≤ e.depth ∧ next = .inr { w with queue := rest }) ∨
        (∃ fault, next = .inl (.error fault)) ∨
        ∃ links w', e.depth < maxDistance ∧ kg.neighbours e.vertex = .ok links ∧
          w' ∈ links.foldlM (lookAt isTarget e) { w with queue := rest } ∧ next = .inr w') := by
  cases hqueue : w.queue with
  | nil =>
      rw [turn_of_nil hqueue, Part.mem_some_iff] at hturn
      exact Or.inl ⟨rfl, hturn⟩
  | cons e rest =>
      refine Or.inr ⟨e, rest, rfl, ?_⟩
      by_cases hdeep : maxDistance ≤ e.depth
      · rw [turn_of_deep hqueue hdeep, Part.mem_some_iff] at hturn
        exact Or.inl ⟨hdeep, hturn⟩
      · have hnear := UInt64.not_le.mp hdeep
        cases hlinks : kg.neighbours e.vertex with
        | error fault =>
            rw [turn_of_fault hqueue hnear hlinks, Part.mem_some_iff] at hturn
            exact Or.inr (Or.inl ⟨fault, hturn⟩)
        | ok links =>
            rw [turn_of_links hqueue hnear hlinks] at hturn
            obtain ⟨w', hlooks, rfl⟩ := (Part.mem_map_iff _).mp hturn
            exact Or.inr (Or.inr ⟨links, w', hnear, rfl, hlooks, rfl⟩)

/-- From one moment to the next: a turn of the loop takes the front of the queue. -/
theorem Moment.turned (h : Moment kg isTarget start maxDistance g taken [] w)
    (hturn : .inr w' ∈ turn kg isTarget maxDistance w) :
    ∃ e, Moment kg isTarget start maxDistance g (taken ++ [e]) [] w' := by
  rcases turn_cases hturn with ⟨-, hnext⟩ | ⟨e, rest, hqueue, hnext⟩
  · exact absurd hnext Sum.inr_ne_inl
  · rcases hnext with ⟨hdeep, hnext⟩ | ⟨fault, hnext⟩ | ⟨links, w'', hnear, hlinks, hlooks, hnext⟩
    · rw [Sum.inr.inj hnext]
      exact ⟨e, h.pass hqueue hdeep⟩
    · exact absurd hnext Sum.inr_ne_inl
    · rw [Sum.inr.inj hnext]
      exact ⟨e, (h.take hqueue hnear hlinks).looks hlooks⟩

theorem queue_eq_nil_of_turn (hturn : .inl (.ok w') ∈ turn kg isTarget maxDistance w) :
    w = w' ∧ w'.queue = [] := by
  rcases turn_cases hturn with ⟨hqueue, hnext⟩ | ⟨e, rest, -, hnext⟩
  · obtain rfl : w' = w := Except.ok.inj (Sum.inl.inj hnext)
    exact ⟨rfl, hqueue⟩
  · rcases hnext with ⟨-, hnext⟩ | ⟨fault, hnext⟩ | ⟨links, w'', -, -, -, hnext⟩
    · exact absurd hnext Sum.inl_ne_inr
    · simp at hnext
    · exact absurd hnext Sum.inl_ne_inr

/-- Where the loop ends without a fault, nothing waits any more. -/
theorem Moment.ended (hwork : .ok w' ∈ work kg isTarget maxDistance w) :
    ∀ taken, Moment kg isTarget start maxDistance g taken [] w →
      ∃ all, Moment kg isTarget start maxDistance g all [] w' ∧ w'.queue = [] := by
  refine PFun.fixInduction' hwork ?_ ?_
  · intro last hstop taken h
    obtain ⟨rfl, hqueue⟩ := queue_eq_nil_of_turn hstop
    exact ⟨taken, h, hqueue⟩
  · intro now next _ hturn ih taken h
    obtain ⟨e, hnext⟩ := h.turned hturn
    exact ih _ hnext

/-! ## Orderly queues -/

/-- Following the parents of a vertex comes to an end: at the start, after so many steps, and
without coming by any vertex twice. -/
def LeadsBack (parents : List Discovery) (start : String) (steps : Nat) (u : String) : Prop :=
  ∃ path, climb parents u = Part.some path ∧ path.length = steps ∧
    u :: path.map Edge.source = path.map Edge.target ++ [start] ∧
    (u :: path.map Edge.source).Nodup

theorem Grown.leadsBack {found : List Discovery} (h : Grown kg isTarget start found)
    (hu : Seen start found u) : LeadsBack found start (depth found u) u := by
  have hsources := h.cons_sources_trail hu
  refine ⟨trail found u, h.climb_eq_trail u, rfl, hsources, ?_⟩
  have hreverse : u :: (trail found u).map Edge.source = (start :: stem found u).reverse := by
    rw [hsources, stem, List.reverse_cons, List.reverse_reverse]
  rw [hreverse, List.nodup_reverse]
  exact h.nodup_stem u

/-- What has been discovered is one step deeper than what it was discovered from. -/
theorem Grown.depth_of_mem {found : List Discovery} (h : Grown kg isTarget start found)
    (hd : d ∈ found) :
    Seen start found d.parent ∧ depth found d.vertex = depth found d.parent + 1 := by
  induction h with
  | nil => simp at hd
  | @cons newest older holder hparent hopen hnew hstep ih =>
      rcases List.mem_cons.mp hd with rfl | hd
      · rw [depth_cons_self, depth_cons_of_seen hnew hparent]
        exact ⟨seen_cons.mpr (Or.inr hparent), rfl⟩
      · obtain ⟨hseen, hdepth⟩ := ih hd
        rw [depth_cons_of_seen hnew (Or.inr ⟨d, hd, rfl⟩), depth_cons_of_seen hnew hseen]
        exact ⟨seen_cons.mpr (Or.inr hseen), hdepth⟩

theorem Grown.nodup_vertices {found : List Discovery} (h : Grown kg isTarget start found) :
    (found.map Discovery.vertex).Nodup := by
  induction h with
  | nil => exact List.nodup_nil
  | @cons d older holder hparent hopen hnew hstep ih =>
      rw [List.map_cons, List.nodup_cons]
      refine ⟨?_, ih⟩
      intro hmem
      exact hnew (Or.inr (List.mem_map.mp hmem))

/-- What is true of the queue and of the table of parents at a moment of the loop. -/
structure Orderly (start : String) (maxDistance : UInt64) (taken : List Queued) (w : Worklist) :
    Prop where
  /-- No vertex enters the queue a second time. -/
  once : ((taken ++ w.queue).map Queued.vertex).Nodup
  ordered : (taken ++ w.queue).Pairwise fun e f => e.depth ≤ f.depth
  depth_le : ∀ e ∈ taken ++ w.queue, e.depth ≤ maxDistance
  leadsBack : ∀ e ∈ taken ++ w.queue, LeadsBack w.parents start e.depth.toNat e.vertex
  /-- Nothing is ever written for the start. -/
  start_orphan : ∀ d ∈ w.parents, d.vertex ≠ start
  /-- For no vertex anything is written a second time. -/
  written_once : (w.parents.map Discovery.vertex).Nodup
  discovered : ∀ d ∈ w.parents, ∃ e ∈ taken, e.vertex = d.parent ∧ e.depth < maxDistance ∧
    LeadsBack w.parents start (e.depth.toNat + 1) d.vertex

theorem Sound.orderly (h : Sound kg start maxDistance taken pending w) :
    Orderly start maxDistance taken w := by
  constructor
  case once => exact h.once
  case ordered => exact h.ordered
  case depth_le => exact fun e he => (h.placed e he).depth_le
  case leadsBack =>
    intro e he
    rw [(h.placed e he).depth_eq]
    exact h.grown.leadsBack (h.placed e he).seen
  case start_orphan =>
    intro d hd hstart
    exact h.grown.not_discovered_start ⟨d, hd, hstart⟩
  case written_once => exact h.grown.nodup_vertices
  case discovered =>
    intro d hd
    obtain ⟨e, he, hparent, hnear⟩ := h.parent d hd
    refine ⟨e, he, hparent, hnear, ?_⟩
    have hdepth : depth w.parents d.vertex = e.depth.toNat + 1 := by
      rw [(h.grown.depth_of_mem hd).2, ← hparent, (h.placed e (List.mem_append_left _ he)).depth_eq]
    rw [← hdepth]
    exact h.grown.leadsBack (Or.inr ⟨d, hd, rfl⟩)

/-- In a finite graph the queue is never longer than there are vertices, the start included. -/
theorem Sound.length_le (h : Sound kg start maxDistance taken pending w) {V : Finset String}
    (hV : ∀ u links, kg.neighbours u = .ok links → ∀ l ∈ links, l.uri ∈ V) :
    taken.length + w.queue.length ≤ V.card + 1 := by
  have hsub : ((taken ++ w.queue).map Queued.vertex).toFinset ⊆ insert start V := by
    intro u hu
    obtain ⟨e, he, rfl⟩ := List.mem_map.mp (List.mem_toFinset.mp hu)
    rcases (h.placed e he).seen with hstart | hfound
    · rw [hstart]
      exact Finset.mem_insert_self start V
    · obtain ⟨v, links, hlinks, l, hl, hvertex⟩ := h.grown.exists_steps_of_discovered hfound
      rw [← hvertex]
      exact Finset.mem_insert_of_mem (hV v links hlinks l hl)
  calc taken.length + w.queue.length
      = ((taken ++ w.queue).map Queued.vertex).toFinset.card := by
        rw [List.toFinset_card_of_nodup h.once, List.length_map, List.length_append]
    _ ≤ (insert start V).card := Finset.card_le_card hsub
    _ ≤ V.card + 1 := Finset.card_insert_le start V

theorem work_expand (kg : KnowledgeGraph) (rows : Rows) (start : String) (maxDistance : UInt64)
    (g : Subgraph) :
    (work kg (rivals rows start) maxDistance (.opening start g)).map (Except.map Worklist.graph) =
      Part.some (expand kg rows maxDistance.toNat start g).outcome := by
  rw [work_opening, Part.map_some, expand, Recorded.bind_eq, Recorded.outcome_andThen]
  cases (explore kg (rivals rows start) start maxDistance.toNat [start] ⟨[], [], g⟩).outcome with
  | error fault => rfl
  | ok s => rfl

/-- The loop over the queue ends, and with what the search by distances ends with; so does every
walk along the parents.  At each moment the queue and the table of parents are in order, and in a
finite graph no more has been taken from the queue or waits in it than there are vertices beside the
start. -/
theorem worklist_orderly (kg : KnowledgeGraph) (isTarget : String → Bool) (start : String)
    (maxDistance : UInt64) (g : Subgraph) :
    work kg isTarget maxDistance (.opening start g) =
        Part.some ((explore kg isTarget start maxDistance.toNat [start] ⟨[], [], g⟩).outcome.map
          (Worklist.closing start)) ∧
      (∀ rows, (work kg (rivals rows start) maxDistance (.opening start g)).map
          (Except.map Worklist.graph) =
        Part.some (expand kg rows maxDistance.toNat start g).outcome) ∧
      (∀ w, .ok w ∈ work kg isTarget maxDistance (.opening start g) →
        ∃ taken, Moment kg isTarget start maxDistance g taken [] w ∧ w.queue = []) ∧
      (∀ taken e link pending w,
        Moment kg isTarget start maxDistance g (taken ++ [e]) (link :: pending) w →
          ∃ w', lookAt isTarget e w link = Part.some w') ∧
      ∀ taken pending w, Moment kg isTarget start maxDistance g taken pending w →
        Orderly start maxDistance taken w ∧
          ∀ V : Finset String, (∀ u links, kg.neighbours u = .ok links → ∀ l ∈ links, l.uri ∈ V) →
            taken.length + w.queue.length ≤ V.card + 1 := by
  refine ⟨work_opening kg isTarget start maxDistance g, ?_, ?_, ?_, ?_⟩
  · exact fun rows => work_expand kg rows start maxDistance g
  · intro w hwork
    exact Moment.ended hwork [] .opening
  · intro taken e link pending w h
    obtain ⟨w', hlook, -⟩ := h.sound.exists_look isTarget
    exact ⟨w', hlook⟩
  · intro taken pending w h
    exact ⟨h.sound.orderly, fun V hV => h.sound.length_le hV⟩

/-- A store is a finite graph: all its links lead to its vertices. -/
theorem uri_mem_vertices {store : TripleStore} (hclosed : store.Closed) (u : String)
    (links : List Link) (hlinks : store.graph.neighbours u = .ok links) :
    ∀ l ∈ links, l.uri ∈ store.vertices.toFinset := by
  intro l hl
  have hstep : Steps store.graph u l.uri := ⟨links, hlinks, l, hl, rfl⟩
  rw [List.mem_toFinset, ← TripleStore.contains_iff]
  exact hclosed.contains_right ((steps_graph_iff hclosed).mp hstep)

/-- A search over the fork, with a loop at its start. -/
theorem worklist_orderly_fork :
    ∃ w taken, work (TripleStore.ofTriples fork).graph (rivals [["a"], ["b", "c"]] "a") 2
        (.opening "a" {}) = Part.some (.ok w) ∧
      w.parents = [⟨"c", "x", "p"⟩, ⟨"b", "x", "q"⟩, ⟨"x", "a", "p"⟩] ∧
      Moment (TripleStore.ofTriples fork).graph (rivals [["a"], ["b", "c"]] "a") "a" 2 {}
        taken [] w ∧
      Orderly "a" 2 taken w ∧ taken.length + w.queue.length ≤ 5 := by
  obtain ⟨hends, -, hended, -, hmoments⟩ := worklist_orderly (TripleStore.ofTriples fork).graph
    (rivals [["a"], ["b", "c"]] "a") "a" 2 {}
  have hrun : (explore (TripleStore.ofTriples fork).graph (rivals [["a"], ["b", "c"]] "a") "a" 2
      ["a"] ⟨[], [], {}⟩).outcome =
        .ok ⟨[⟨"c", "x", "p"⟩, ⟨"b", "x", "q"⟩, ⟨"x", "a", "p"⟩], [],
          ⟨["x", "b", "a", "c"], [⟨"x", "q", "b"⟩, ⟨"a", "p", "x"⟩, ⟨"x", "p", "c"⟩]⟩⟩ := by cbv
  have htwo : (2 : UInt64).toNat = 2 := rfl
  rw [htwo, hrun] at hends
  obtain ⟨taken, hmoment, -⟩ := hended _ (Part.eq_some_iff.mp hends)
  obtain ⟨horderly, hlength⟩ := hmoments taken [] _ hmoment
  have hvertices : (TripleStore.ofTriples fork).vertices.toFinset.card = 4 := by decide
  have hfinite := hlength (TripleStore.ofTriples fork).vertices.toFinset
    (uri_mem_vertices (TripleStore.closed_ofTriples fork))
  rw [hvertices] at hfinite
  exact ⟨_, taken, hends, rfl, hmoment, horderly, hfinite⟩

end Search
end EntityLinking
