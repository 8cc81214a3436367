import Mathlib.Data.List.Chain

/-!
# Routes between vertices

A route is a walk of at least one step, given by the vertices it comes by.  Its two ends are named
apart from what lies between them, because conditions on a route concern its ends and its interior
in different ways.
-/

namespace EntityLinking

/-- A walk of at least one step: where it starts, what it passes and where it ends. -/
structure Route where
  source : String
  interior : List String
  target : String

namespace Route

/-- All vertices of a route in the order in which it comes by them. -/
def vertices (r : Route) : List String :=
  r.source :: (r.interior ++ [r.target])

/-- The number of steps. -/
def length (r : Route) : Nat :=
  r.interior.length + 1

/-- Every step leads from a vertex to an adjacent one. -/
def Follows (adj : String → String → Prop) (r : Route) : Prop :=
  r.vertices.IsChain adj

/-- No vertex is visited twice. -/
def Simple (r : Route) : Prop :=
  r.vertices.Nodup

/-- Some step leads from the one vertex to the other, in either direction. -/
def Uses (r : Route) (a b : String) : Prop :=
  [a, b] <:+: r.vertices ∨ [b, a] <:+: r.vertices

theorem Follows.imp {adj adj' : String → String → Prop} {r : Route}
    (h : r.Follows adj) (himp : ∀ a b, adj a b → adj' a b) : r.Follows adj' :=
  List.IsChain.imp himp h

/-- The two ends of a step of a route are adjacent. -/
theorem Follows.of_infix {adj : String → String → Prop} {r : Route} {a b : String}
    (h : r.Follows adj) (hab : [a, b] <:+: r.vertices) : adj a b :=
  List.isChain_pair.mp <| List.IsChain.infix h hab

/-- The steps of a route lead from its source to its target. -/
theorem Follows.reflTransGen {adj : String → String → Prop} {r : Route} (h : r.Follows adj) :
    Relation.ReflTransGen adj r.source r.target :=
  List.relationReflTransGen_of_exists_isChain_cons (r.interior ++ [r.target]) h (by simp)

/-- A route leaves its source. -/
theorem Follows.exists_step {adj : String → String → Prop} {r : Route} (h : r.Follows adj) :
    ∃ v, adj r.source v := by
  have hstep : [r.source, (r.interior ++ [r.target]).head (by simp)] <:+: r.vertices :=
    ⟨[], (r.interior ++ [r.target]).tail, by simp [vertices]⟩
  exact ⟨_, h.of_infix hstep⟩

/-- The same steps taken backwards. -/
def reverse (r : Route) : Route :=
  ⟨r.target, r.interior.reverse, r.source⟩

theorem vertices_reverse (r : Route) : r.reverse.vertices = r.vertices.reverse := by
  simp [reverse, vertices]

theorem length_reverse (r : Route) : r.reverse.length = r.length := by
  simp [reverse, length]

theorem Follows.reverse {adj : String → String → Prop} {r : Route}
    (hsymm : ∀ a b, adj a b → adj b a) (h : r.Follows adj) : r.reverse.Follows adj := by
  rw [Follows, vertices_reverse, List.isChain_reverse]
  exact List.IsChain.imp (fun a b hab => hsymm a b hab) h

theorem length_vertices (r : Route) : r.vertices.length = r.length + 1 := by
  simp [vertices, length]

/-- The part of a route from one of its vertices to a later one is a route. -/
theorem Follows.exists_part {adj : String → String → Prop} {r : Route} {a b : String}
    {front back : List String} (h : r.Follows adj) (hr : r.vertices = front ++ a :: back)
    (hb : b ∈ back) :
    ∃ p : Route, p.source = a ∧ p.target = b ∧ p.Follows adj ∧ p.length ≤ r.length := by
  obtain ⟨interior, rest, rfl⟩ := List.append_of_mem hb
  have hpart : (a :: (interior ++ [b])) <:+: r.vertices := ⟨front, rest, by simp [hr]⟩
  have hlength : interior.length + 1 ≤ r.length := by
    have hle := hpart.length_le
    rw [length_vertices, List.length_cons, List.length_append, List.length_singleton] at hle
    omega
  exact ⟨⟨a, interior, b⟩, rfl, rfl, List.IsChain.infix h hpart, hlength⟩

/-- Where steps can be taken back, a route leads from each of its vertices to every other one. -/
theorem Follows.exists_between {adj : String → String → Prop} {r : Route} {a b : String}
    (hsymm : ∀ a b, adj a b → adj b a) (h : r.Follows adj) (ha : a ∈ r.vertices)
    (hb : b ∈ r.vertices) (hab : a ≠ b) :
    ∃ p : Route, p.source = a ∧ p.target = b ∧ p.Follows adj ∧ p.length ≤ r.length := by
  obtain ⟨front, back, hr⟩ := List.append_of_mem ha
  rw [hr, List.mem_append, List.mem_cons] at hb
  rcases hb with hb | rfl | hb
  · have hreverse : r.reverse.vertices = back.reverse ++ a :: front.reverse := by
      simp [vertices_reverse, hr]
    rw [← length_reverse]
    exact (h.reverse hsymm).exists_part hreverse (List.mem_reverse.mpr hb)
  · exact absurd rfl hab
  · exact h.exists_part hr hb

/-- An interior vertex stands between two others. -/
theorem exists_around_of_mem_interior {r : Route} {v : String}
    (hv : v ∈ r.interior) :
    ∃ front x y back, r.vertices = front ++ x :: v :: y :: back := by
  obtain ⟨p, q, hpq⟩ := List.append_of_mem hv
  obtain ⟨front, x, hfront⟩ : ∃ front x, r.source :: p = front ++ [x] := by
    rcases List.eq_nil_or_concat (r.source :: p) with hnil | ⟨front, x, hconcat⟩
    · simp at hnil
    · exact ⟨front, x, by simpa using hconcat⟩
  obtain ⟨y, back, hback⟩ : ∃ y back, q ++ [r.target] = y :: back := by
    cases q with
    | nil => exact ⟨r.target, [], rfl⟩
    | cons y q => exact ⟨y, q ++ [r.target], rfl⟩
  refine ⟨front, x, y, back, ?_⟩
  calc
    r.vertices = (r.source :: p) ++ v :: (q ++ [r.target]) := by
      simp [vertices, hpq]
    _ = front ++ x :: v :: y :: back := by
      rw [hfront, hback]
      simp

/-- On a simple route every interior vertex has two different neighbours. -/
theorem exists_neighbours_of_mem_interior {r : Route} {v : String}
    (hsimple : r.Simple) (hv : v ∈ r.interior) :
    ∃ x y, x ≠ y ∧ [x, v] <:+: r.vertices ∧ [v, y] <:+: r.vertices := by
  obtain ⟨front, x, y, back, hr⟩ := exists_around_of_mem_interior hv
  have hnodup : (front ++ x :: v :: y :: back).Nodup := hr ▸ hsimple
  have hxy : x ≠ y := by
    have htail := (List.nodup_append.mp hnodup).2.1
    rw [List.nodup_cons] at htail
    rintro rfl
    exact htail.1 (by simp)
  refine ⟨x, y, hxy, ?_, ?_⟩
  · exact ⟨front, y :: back, by simp [hr]⟩
  · exact ⟨front ++ [x], back, by simp [hr]⟩

end Route
end EntityLinking
