import EntityLinking.Proofs.Search.Relevance

/-!
# The questions of a construction

A construction knows a knowledge graph only by the answers to its questions, so two graphs that
answer the questions of a run alike have the same run.  And no question goes far: whether a
vertex exists is asked for candidates, and the neighbours are asked of vertices that fewer steps
lead to from a candidate than a path may have edges.  Whatever lies beyond, and whatever faults
are met there, plays no part.
-/

namespace EntityLinking
namespace Search

variable {kg kg' : KnowledgeGraph} {rows : Rows} {isTarget : String → Bool} {start u v : String}
variable {maxDistance distance n : Nat} {frontier todo order : List String} {s s' : State}
variable {g : Subgraph} {events events' : List Event}

/-! ## Runs with the same answers -/

/-- Two graphs give the same answers to the questions among some events. -/
structure AgreeOn (kg kg' : KnowledgeGraph) (events : List Event) : Prop where
  contains_eq : ∀ u, Event.contains u ∈ events → kg.contains u = kg'.contains u
  neighbours_eq : ∀ u, Event.neighbours u ∈ events → kg.neighbours u = kg'.neighbours u

theorem AgreeOn.subset (h : AgreeOn kg kg' events) (hsub : ∀ e ∈ events', e ∈ events) :
    AgreeOn kg kg' events' :=
  ⟨fun u hu => h.contains_eq u (hsub _ hu), fun u hu => h.neighbours_eq u (hsub _ hu)⟩

/-- The part of a computation that is carried on with asks no more than the whole. -/
theorem AgreeOn.of_andThen {α β : Type} {x : Recorded Event GraphFault α}
    {f : α → Recorded Event GraphFault β} (h : AgreeOn kg kg' (x.andThen f).events) {a : α}
    (ha : x.outcome = .ok a) : AgreeOn kg kg' (f a).events :=
  h.subset fun _ he => Recorded.mem_events_andThen.mpr (Or.inr ⟨a, ha, he⟩)

theorem AgreeOn.of_left {α β : Type} {x : Recorded Event GraphFault α}
    {f : α → Recorded Event GraphFault β} (h : AgreeOn kg kg' (x.andThen f).events) :
    AgreeOn kg kg' x.events :=
  h.subset fun _ he => Recorded.mem_events_andThen.mpr (Or.inl he)

theorem askNeighbours_congr (h : AgreeOn kg kg' (askNeighbours kg u).events) :
    askNeighbours kg u = askNeighbours kg' u := by
  rw [askNeighbours, askNeighbours, h.neighbours_eq u List.mem_cons_self]

theorem askContains_congr (h : AgreeOn kg kg' (askContains kg u).events) :
    askContains kg u = askContains kg' u := by
  rw [askContains, askContains, h.contains_eq u List.mem_cons_self]

theorem exploreLevel_congr :
    ∀ {todo : List String} {s : State},
      AgreeOn kg kg' (exploreLevel kg isTarget start todo s).events →
        exploreLevel kg isTarget start todo s = exploreLevel kg' isTarget start todo s := by
  intro todo
  induction todo with
  | nil => exact fun _ => rfl
  | cons u rest ih =>
      intro s h
      simp only [exploreLevel, Recorded.bind_eq] at h ⊢
      rw [← askNeighbours_congr h.of_left]
      apply Recorded.andThen_congr
      intro links hlinks
      exact ih (h.of_andThen hlinks)

theorem explore_congr :
    ∀ {distance : Nat} {frontier : List String} {s : State},
      AgreeOn kg kg' (explore kg isTarget start distance frontier s).events →
        explore kg isTarget start distance frontier s =
          explore kg' isTarget start distance frontier s := by
  intro distance
  induction distance with
  | zero => exact fun _ => rfl
  | succ distance ih =>
      intro frontier s h
      cases frontier with
      | nil => rfl
      | cons u rest =>
          simp only [explore, Recorded.bind_eq] at h ⊢
          rw [← exploreLevel_congr h.of_left]
          apply Recorded.andThen_congr
          intro t ht
          exact ih (h.of_andThen ht)

theorem addSenses_congr :
    ∀ {order : List String} {g : Subgraph}, AgreeOn kg kg' (addSenses kg order g).events →
      addSenses kg order g = addSenses kg' order g := by
  intro order
  induction order with
  | nil => exact fun _ => rfl
  | cons u rest ih =>
      intro g h
      simp only [addSenses, Recorded.bind_eq] at h ⊢
      rw [← askContains_congr h.of_left]
      apply Recorded.andThen_congr
      intro found hfound
      have hrest := h.of_andThen hfound
      cases found with
      | true => exact ih hrest
      | false =>
          rw [if_neg Bool.false_ne_true] at hrest
          rw [if_neg Bool.false_ne_true, if_neg Bool.false_ne_true]
          apply Recorded.andThen_congr
          intro told htold
          exact ih (hrest.of_andThen htold)

theorem expandAll_congr :
    ∀ {order : List String} {g : Subgraph},
      AgreeOn kg kg' (expandAll kg rows maxDistance order g).events →
        expandAll kg rows maxDistance order g = expandAll kg' rows maxDistance order g := by
  intro order
  induction order with
  | nil => exact fun _ => rfl
  | cons start rest ih =>
      intro g h
      rw [expandAll] at h
      rw [expandAll, expandAll]
      split at h
      next hstart =>
        rw [if_pos hstart, if_pos hstart]
        simp only [expand, Recorded.bind_eq] at h ⊢
        rw [← explore_congr h.of_left.of_left]
        apply Recorded.andThen_congr
        intro g' hg'
        exact ih (h.of_andThen hg')
      next hstart =>
        rw [if_neg hstart, if_neg hstart]
        exact ih h

/-- A run depends on the answers to its own questions and on nothing else. -/
theorem relevant_congr (h : AgreeOn kg kg' (relevant kg maxDistance rows).events) :
    relevant kg maxDistance rows = relevant kg' maxDistance rows := by
  simp only [relevant, Recorded.bind_eq] at h ⊢
  rw [← addSenses_congr h.of_left]
  apply Recorded.andThen_congr
  intro vertices hvertices
  have hrest := h.of_andThen hvertices
  rw [← expandAll_congr hrest.of_left]

/-! ## How far questions go -/

/-- So many steps of the graph lead to a vertex from some candidate. -/
inductive Reach (kg : KnowledgeGraph) (rows : Rows) : Nat → String → Prop
  | candidate {u : String} (hu : Candidate rows u) : Reach kg rows 0 u
  | step {n : Nat} {u v : String} (hu : Reach kg rows n u) (hstep : Steps kg u v) :
      Reach kg rows (n + 1) v

/-- A vertex that some links lead to was found before or is at the end of one of them. -/
theorem mem_next_visits {links : List Link} :
    ∀ {s : State}, v ∈ (links.foldl (visit isTarget start u) s).next →
      v ∈ s.next ∨ ∃ l ∈ links, l.uri = v := by
  induction links with
  | nil => exact fun hv => Or.inl hv
  | cons link links ih =>
      intro s hv
      rcases ih hv with hv | ⟨l, hl, rfl⟩
      · by_cases hseen : Seen start s.found link.uri
        · rw [visit_of_seen hseen] at hv
          exact Or.inl hv
        · rcases (mem_next_visit_of_new hseen).mp hv with hv | ⟨rfl, -⟩
          · exact Or.inl hv
          · exact Or.inr ⟨link, List.mem_cons_self, rfl⟩
      · exact Or.inr ⟨l, List.mem_cons_of_mem _ hl, rfl⟩

/-- The vertices of the next level are one step from those of this one. -/
theorem mem_next_exploreLevel :
    ∀ {todo : List String} {s s' : State},
      (exploreLevel kg isTarget start todo s).outcome = .ok s' → v ∈ s'.next →
        v ∈ s.next ∨ ∃ u ∈ todo, Steps kg u v := by
  intro todo
  induction todo with
  | nil =>
      intro s s' hrun hv
      obtain rfl : s = s' := by simpa [exploreLevel] using hrun
      exact Or.inl hv
  | cons u rest ih =>
      intro s s' hrun hv
      obtain ⟨links, hlinks, hrest⟩ := exploreLevel_cons_eq_ok_iff.mp hrun
      rcases ih hrest hv with hv | ⟨w, hw, hstep⟩
      · rcases mem_next_visits hv with hv | ⟨l, hl, hlv⟩
        · exact Or.inl hv
        · exact Or.inr ⟨u, List.mem_cons_self, links, hlinks, l, hl, hlv⟩
      · exact Or.inr ⟨w, List.mem_cons_of_mem _ hw, hstep⟩

/-- A level asks for the neighbours of its vertices. -/
theorem mem_events_exploreLevel {event : Event} :
    ∀ {todo : List String} {s : State},
      event ∈ (exploreLevel kg isTarget start todo s).events →
        ∃ u ∈ todo, event = .neighbours u := by
  intro todo
  induction todo with
  | nil =>
      intro s he
      simp [exploreLevel] at he
  | cons u rest ih =>
      intro s he
      rw [exploreLevel, Recorded.bind_eq, Recorded.mem_events_andThen] at he
      rcases he with he | ⟨links, -, he⟩
      · exact ⟨u, List.mem_cons_self, List.mem_singleton.mp he⟩
      · obtain ⟨w, hw, rfl⟩ := ih he
        exact ⟨w, List.mem_cons_of_mem _ hw, rfl⟩

/-- The run lemma: what a search asks for is within the distance that is left to it, where `P n`
holds of whatever `n` steps lead to. -/
theorem mem_events_explore {P : Nat → String → Prop}
    (hP : ∀ {n : Nat} {u v : String}, P n u → Steps kg u v → P (n + 1) v) {event : Event} :
    ∀ {distance n : Nat} {frontier : List String} {s : State},
      (∀ u ∈ frontier, P n u) →
        event ∈ (explore kg isTarget start distance frontier s).events →
          ∃ i u, i < n + distance ∧ P i u ∧ event = .neighbours u := by
  intro distance
  -- a level uses up one of the distance and leads one step further out, so the sum stays
  induction distance with
  | zero =>
      intro n frontier s hfrontier he
      simp [explore] at he
  | succ distance ih =>
      intro n frontier s hfrontier he
      cases frontier with
      | nil => simp [explore] at he
      | cons u rest =>
          rw [explore, Recorded.bind_eq, Recorded.mem_events_andThen] at he
          rcases he with he | ⟨t, ht, he⟩
          · obtain ⟨w, hw, rfl⟩ := mem_events_exploreLevel he
            exact ⟨n, w, by omega, hfrontier w hw, rfl⟩
          · have hnext : ∀ w ∈ t.next, P (n + 1) w := by
              intro w hw
              rcases mem_next_exploreLevel ht hw with hw | ⟨x, hx, hstep⟩
              · simp at hw
              · exact hP (hfrontier x hx) hstep
            obtain ⟨i, w, hi, hw, rfl⟩ := ih hnext he
            exact ⟨i, w, by omega, hw, rfl⟩

/-- An expansion asks for the neighbours of vertices that the search reaches from its start. -/
theorem mem_events_expand {P : Nat → String → Prop}
    (hP : ∀ {n : Nat} {u v : String}, P n u → Steps kg u v → P (n + 1) v) (hstart : P 0 start)
    {event : Event} (he : event ∈ (expand kg rows maxDistance start g).events) :
    ∃ i u, i < maxDistance ∧ P i u ∧ event = .neighbours u := by
  rw [expand, Recorded.bind_eq, Recorded.mem_events_andThen] at he
  rcases he with he | ⟨s, -, he⟩
  · have hfrontier : ∀ u ∈ [start], P 0 u := by
      intro u hu
      rwa [List.mem_singleton.mp hu]
    obtain ⟨i, u, hi, hu⟩ := mem_events_explore hP hfrontier he
    exact ⟨i, u, by omega, hu⟩
  · simp at he

theorem mem_events_addSenses {event : Event} :
    ∀ {order : List String} {g : Subgraph}, event ∈ (addSenses kg order g).events →
      ∃ u ∈ order, event = .contains u ∨ event = .absent u := by
  intro order
  induction order with
  | nil =>
      intro g he
      simp [addSenses] at he
  | cons u rest ih =>
      intro g he
      rw [addSenses, Recorded.bind_eq, Recorded.mem_events_andThen] at he
      rcases he with he | ⟨found, -, he⟩
      · exact ⟨u, List.mem_cons_self, Or.inl (List.mem_singleton.mp he)⟩
      · cases found with
        | true =>
            obtain ⟨w, hw, h⟩ := ih he
            exact ⟨w, List.mem_cons_of_mem _ hw, h⟩
        | false =>
            rw [if_neg Bool.false_ne_true, Recorded.bind_eq, Recorded.mem_events_andThen] at he
            rcases he with he | ⟨told, -, he⟩
            · exact ⟨u, List.mem_cons_self, Or.inr (List.mem_singleton.mp he)⟩
            · obtain ⟨w, hw, h⟩ := ih he
              exact ⟨w, List.mem_cons_of_mem _ hw, h⟩

theorem mem_events_expandAll {event : Event} :
    ∀ {order : List String} {g : Subgraph}, (∀ u ∈ order, Candidate rows u) →
      event ∈ (expandAll kg rows maxDistance order g).events →
        ∃ i u, i < maxDistance ∧ Reach kg rows i u ∧ event = .neighbours u := by
  intro order
  induction order with
  | nil =>
      intro g horder he
      simp [expandAll] at he
  | cons start rest ih =>
      intro g horder he
      have hrest : ∀ u ∈ rest, Candidate rows u := fun u hu => horder u (List.mem_cons_of_mem _ hu)
      rw [expandAll] at he
      split at he
      next hstart =>
        rw [Recorded.bind_eq, Recorded.mem_events_andThen] at he
        rcases he with he | ⟨g', -, he⟩
        · exact mem_events_expand .step (.candidate (horder start List.mem_cons_self)) he
        · exact ih hrest he
      next hstart => exact ih hrest he

/-- Whether a vertex exists is asked for candidates only. -/
theorem candidate_of_contains_mem (h : Event.contains u ∈ (relevant kg maxDistance rows).events) :
    Candidate rows u := by
  rw [relevant, Recorded.bind_eq, Recorded.mem_events_andThen] at h
  rcases h with h | ⟨vertices, -, h⟩
  · obtain ⟨w, hw, hevent⟩ := mem_events_addSenses h
    obtain rfl : u = w := by simpa using hevent
    exact mem_senses_iff.mp hw
  · rw [Recorded.bind_eq, Recorded.mem_events_andThen] at h
    rcases h with h | ⟨g, -, h⟩
    · have horder : ∀ u ∈ senses rows, Candidate rows u := fun u hu => mem_senses_iff.mp hu
      obtain ⟨i, w, -, -, hevent⟩ := mem_events_expandAll horder h
      simp at hevent
    · simp [Recorded.note] at h

/-- The neighbours are asked only of vertices at the end of fewer steps than a path may have
edges. -/
theorem reach_of_neighbours_mem (h : Event.neighbours u ∈ (relevant kg maxDistance rows).events) :
    ∃ n < maxDistance, Reach kg rows n u := by
  rw [relevant, Recorded.bind_eq, Recorded.mem_events_andThen] at h
  rcases h with h | ⟨vertices, -, h⟩
  · obtain ⟨w, -, hevent⟩ := mem_events_addSenses h
    simp at hevent
  · rw [Recorded.bind_eq, Recorded.mem_events_andThen] at h
    rcases h with h | ⟨g, -, h⟩
    · have horder : ∀ u ∈ senses rows, Candidate rows u := fun u hu => mem_senses_iff.mp hu
      obtain ⟨i, w, hi, hreach, hevent⟩ := mem_events_expandAll horder h
      obtain rfl : u = w := by simpa using hevent
      exact ⟨i, hi, hreach⟩
    · simp [Recorded.note] at h

/-- Two graphs that give the same answers within the radius of a request have the same run. -/
theorem relevant_eq_of_agree
    (hcontains : ∀ u, Candidate rows u → kg.contains u = kg'.contains u)
    (hneighbours : ∀ n < maxDistance, ∀ u, Reach kg rows n u → kg.neighbours u = kg'.neighbours u) :
    relevant kg maxDistance rows = relevant kg' maxDistance rows := by
  apply relevant_congr
  constructor
  · intro u hu
    exact hcontains u (candidate_of_contains_mem hu)
  · intro u hu
    obtain ⟨n, hn, hreach⟩ := reach_of_neighbours_mem hu
    exact hneighbours n hn u hreach

/-! ## Candidates that the graph fails at -/

theorem exists_addSenses_eq_error :
    ∀ {order : List String} {g : Subgraph}, (∃ u ∈ order, ∃ fault, kg.contains u = .error fault) →
      ∃ u ∈ order, ∃ fault, kg.contains u = .error fault ∧
        (addSenses kg order g).outcome = .error fault := by
  intro order
  induction order with
  | nil =>
      rintro g ⟨u, hu, -⟩
      simp at hu
  | cons w rest ih =>
      rintro g ⟨u, hu, fault, hfault⟩
      rw [addSenses, Recorded.bind_eq]
      cases hw : kg.contains w with
      | error fault' =>
          refine ⟨w, List.mem_cons_self, fault', hw, ?_⟩
          rw [Recorded.andThen_of_error (x := askContains kg w) hw]
      | ok found =>
          have hrest : ∃ u ∈ rest, ∃ fault, kg.contains u = .error fault := by
            rcases List.mem_cons.mp hu with rfl | hu
            · simp [hw] at hfault
            · exact ⟨u, hu, fault, hfault⟩
          rw [Recorded.andThen_of_ok (x := askContains kg w) hw]
          cases found with
          | true =>
              obtain ⟨v, hv, hends⟩ := ih (g := g.addVertex w) hrest
              exact ⟨v, List.mem_cons_of_mem _ hv, hends⟩
          | false =>
              -- an absent candidate is only noted
              obtain ⟨v, hv, hends⟩ := ih (g := g) hrest
              exact ⟨v, List.mem_cons_of_mem _ hv, hends⟩

/-- A candidate for which the graph cannot say whether it is a vertex ends the construction. -/
theorem exists_relevant_eq_error {fault : GraphFault} (hu : Candidate rows u)
    (hfault : kg.contains u = .error fault) (maxDistance : Nat) :
    ∃ v fault', Candidate rows v ∧ kg.contains v = .error fault' ∧
      (relevant kg maxDistance rows).outcome = .error fault' := by
  obtain ⟨v, hv, fault', hfault', hends⟩ :=
    exists_addSenses_eq_error (g := {}) ⟨u, mem_senses_iff.mpr hu, fault, hfault⟩
  refine ⟨v, fault', mem_senses_iff.mp hv, hfault', ?_⟩
  rw [relevant, Recorded.bind_eq, Recorded.andThen_of_error hends]

end Search
end EntityLinking
