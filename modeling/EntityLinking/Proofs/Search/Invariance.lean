import EntityLinking.Graph.Sense
import EntityLinking.Proofs.Search.Counterpart

/-!
# What the relevance subgraph depends on

Of the mentions of a request the searches see no more than which senses are candidates and which are
rivals of which.  Requests that agree in this are searched alike: from the same starts, with the
same discoveries.  The order of the searches may differ, and with it the order in which vertices and
edges are listed, but not what vertices and links there are.
-/

namespace EntityLinking
namespace Search

variable {kg : KnowledgeGraph} {store : TripleStore} {rows rows' : Rows} {maxDistance : Nat}
variable {g g' : Subgraph} {trees trees' : Trees} {start : String}

/-- Two requests with the same candidates and the same rivals. -/
structure Indistinct (rows rows' : Rows) : Prop where
  candidate_iff : ∀ {u : String}, Candidate rows u ↔ Candidate rows' u
  rival_iff : ∀ {s t : String}, Rival rows s t ↔ Rival rows' s t

theorem Indistinct.refl (rows : Rows) : Indistinct rows rows :=
  ⟨Iff.rfl, Iff.rfl⟩

theorem Indistinct.trans {rows'' : Rows} (h : Indistinct rows rows')
    (h' : Indistinct rows' rows'') : Indistinct rows rows'' :=
  ⟨h.candidate_iff.trans h'.candidate_iff, h.rival_iff.trans h'.rival_iff⟩

theorem Indistinct.symm (h : Indistinct rows rows') : Indistinct rows' rows :=
  ⟨h.candidate_iff.symm, h.rival_iff.symm⟩

/-- Every mention that has candidates has a counterpart with the same ones. -/
def Covered (rows rows' : Rows) : Prop :=
  ∀ row ∈ rows, row ≠ [] → ∃ row' ∈ rows', ∀ u, u ∈ row ↔ u ∈ row'

theorem Covered.of_subset (h : rows ⊆ rows') : Covered rows rows' :=
  fun row hrow _ => ⟨row, h hrow, fun _ => Iff.rfl⟩

/-- A row may be replaced by one with the same senses. -/
theorem covered_replace {front back : Rows} {row row' : List String}
    (hsame : ∀ u, u ∈ row ↔ u ∈ row') : Covered (front ++ row :: back) (front ++ row' :: back) := by
  intro other hother _
  rcases List.mem_append.mp hother with hother | hother
  · exact ⟨other, List.mem_append_left _ hother, fun _ => Iff.rfl⟩
  · rcases List.mem_cons.mp hother with rfl | hother
    · exact ⟨row', List.mem_append_right _ List.mem_cons_self, hsame⟩
    · exact ⟨other, List.mem_append_right _ (List.mem_cons_of_mem _ hother), fun _ => Iff.rfl⟩

/-- A row without senses may be left out. -/
theorem covered_leave_out {front back : Rows} : Covered (front ++ [] :: back) (front ++ back) := by
  intro row hrow hne
  rcases List.mem_append.mp hrow with hrow | hrow
  · exact ⟨row, List.mem_append_left _ hrow, fun _ => Iff.rfl⟩
  · have hback := List.mem_of_ne_of_mem hne hrow
    exact ⟨row, List.mem_append_right _ hback, fun _ => Iff.rfl⟩

theorem Covered.candidate (h : Covered rows rows') {u : String} (hu : Candidate rows u) :
    Candidate rows' u := by
  obtain ⟨row, hrow, hmem⟩ := candidate_iff.mp hu
  obtain ⟨row', hrow', hsame⟩ := h row hrow (List.ne_nil_of_mem hmem)
  exact candidate_iff.mpr ⟨row', hrow', (hsame u).mp hmem⟩

theorem Covered.rival (h : Covered rows rows') {s t : String} (hrival : Rival rows s t) :
    Rival rows' s t := by
  obtain ⟨row, hrow, ht, hs⟩ := rival_iff.mp hrival
  obtain ⟨row', hrow', hsame⟩ := h row hrow (List.ne_nil_of_mem ht)
  exact rival_iff.mpr ⟨row', hrow', (hsame t).mp ht, fun hs' => hs ((hsame s).mpr hs')⟩

theorem indistinct_of_covered (h : Covered rows rows') (h' : Covered rows' rows) :
    Indistinct rows rows' :=
  ⟨⟨h.candidate, h'.candidate⟩, ⟨h.rival, h'.rival⟩⟩

/-! ## Equal searches -/

theorem Indistinct.rivals_eq (h : Indistinct rows rows') (s : String) :
    rivals rows s = rivals rows' s := by
  funext t
  rw [Bool.eq_iff_iff, rivals_iff, rivals_iff, h.rival_iff]

theorem Indistinct.discoveries_eq (h : Indistinct rows rows') (kg : KnowledgeGraph)
    (maxDistance : Nat) (start : String) :
    discoveries kg rows maxDistance start = discoveries kg rows' maxDistance start := by
  rw [discoveries, h.rivals_eq, discoveries]

theorem Indistinct.outdone (h : Indistinct rows rows') (store : TripleStore) (maxDistance : Nat)
    (start : String) : Outdone store store rows rows' maxDistance maxDistance start := by
  intro found found' hfound hfound' e he
  rw [h.discoveries_eq, hfound', Except.ok.injEq] at hfound
  subst hfound
  rw [h.rivals_eq] at he
  exact ⟨e, he, rfl⟩

theorem Indistinct.part (h : Indistinct rows rows') (hclosed : store.Closed)
    (hleft : Explained store.graph maxDistance rows g trees)
    (hright : Explained store.graph maxDistance rows' g' trees') : g.Part g' :=
  hleft.part hclosed hright (fun _ => h.candidate_iff.mp) (fun _ hu => hu) fun start _ =>
    h.outdone store maxDistance start

theorem Indistinct.alike (h : Indistinct rows rows') (hclosed : store.Closed)
    (hleft : Explained store.graph maxDistance rows g trees)
    (hright : Explained store.graph maxDistance rows' g' trees') : g.Alike g' :=
  (h.part hclosed hleft hright).alike (h.symm.part hclosed hright hleft) hleft.nodup hright.nodup

/-- Over a triple store there is a subgraph for both of two indistinct requests or for neither, and
the two subgraphs are alike. -/
theorem Indistinct.relevant_alike (h : Indistinct rows rows') (hclosed : store.Closed)
    (maxDistance : Nat) :
    ∃ result result', (relevant store.graph maxDistance rows).outcome = .ok result ∧
      (relevant store.graph maxDistance rows').outcome = .ok result' ∧
      Option.Rel Subgraph.Alike result result' := by
  have hvertex : (∃ u, Candidate rows u ∧ store.contains u = true) ↔
      ∃ u, Candidate rows' u ∧ store.contains u = true := by
    simp only [h.candidate_iff]
  exact exists_relevant_rel hclosed hclosed hvertex (h.alike hclosed)

/-! ## Orders of candidates -/

section Orders

variable {F S : Type} [HasUri S] {candidates candidates' : SenseRows F S}

/-- Changes to a candidate set that leave its searches as they are: mentions trade places, the
senses of one mention trade places, a sense of a mention comes once more, perhaps as another value
of the same URI, or a mention without senses is put in. -/
inductive Rearrangement : SenseRows F S → SenseRows F S → Prop
  | mentions {candidates candidates' : SenseRows F S} (h : candidates.Perm candidates') :
      Rearrangement candidates candidates'
  | senses (front back : SenseRows F S) (form : F) {xs ys : List S} (h : xs.Perm ys) :
      Rearrangement (front ++ (form, xs) :: back) (front ++ (form, ys) :: back)
  | repeated (front back : SenseRows F S) (form : F) {xs : List S} {x y : S} (hx : x ∈ xs)
      (hy : HasUri.uri y = HasUri.uri x) :
      Rearrangement (front ++ (form, xs) :: back) (front ++ (form, y :: xs) :: back)
  | idle (front back : SenseRows F S) (form : F) :
      Rearrangement (front ++ back) (front ++ (form, []) :: back)

theorem Rearrangement.indistinct (h : Rearrangement candidates candidates') :
    Indistinct candidates.uris candidates'.uris := by
  cases h with
  | mentions h =>
      have hperm : candidates.uris.Perm candidates'.uris := h.map _
      exact indistinct_of_covered (.of_subset hperm.subset) (.of_subset hperm.symm.subset)
  | @senses front back form xs ys h =>
      have hsame : ∀ u, u ∈ xs.map HasUri.uri ↔ u ∈ ys.map HasUri.uri := fun u =>
        (h.map HasUri.uri).mem_iff
      simp only [SenseRows.uris, List.map_append, List.map_cons]
      exact indistinct_of_covered (covered_replace hsame) (covered_replace fun u => (hsame u).symm)
  | @repeated front back form xs x y hx hy =>
      have hsame : ∀ u, u ∈ xs.map HasUri.uri ↔ u ∈ (y :: xs).map HasUri.uri := by
        intro u
        rw [List.map_cons, List.mem_cons, hy]
        constructor
        · exact Or.inr
        · rintro (rfl | hu)
          · exact List.mem_map_of_mem hx
          · exact hu
      simp only [SenseRows.uris, List.map_append, List.map_cons]
      exact indistinct_of_covered (covered_replace hsame) (covered_replace fun u => (hsame u).symm)
  | idle front back form =>
      simp only [SenseRows.uris, List.map_append, List.map_cons, List.map_nil]
      refine indistinct_of_covered (.of_subset ?_) covered_leave_out
      exact ((List.sublist_cons_self _ _).append_left _).subset

/-- Candidate sets that some changes of order, repetitions and mentions without senses lead between
have subgraphs with the same vertices and links, or none. -/
theorem relevant_rearranged (triples : List Triple) (maxDistance : Nat)
    (h : Relation.EqvGen Rearrangement candidates candidates') :
    ∃ result result',
      (relevant (TripleStore.ofTriples triples).graph maxDistance candidates.uris).outcome =
        .ok result ∧
      (relevant (TripleStore.ofTriples triples).graph maxDistance candidates'.uris).outcome =
        .ok result' ∧
      Option.Rel (fun g g' => g.Alike g' ∧ g.vertexCount = g'.vertexCount ∧
        g.edgeCount = g'.edgeCount ∧ ∀ u, g.degree u = g'.degree u) result result' := by
  have hindistinct : Indistinct candidates.uris candidates'.uris := by
    induction h with
    | rel _ _ hstep => exact hstep.indistinct
    | refl _ => exact .refl _
    | symm _ _ _ ih => exact ih.symm
    | trans _ _ _ _ _ ih ih' => exact ih.trans ih'
  obtain ⟨result, result', hrun, hrun', hresults⟩ :=
    hindistinct.relevant_alike (TripleStore.closed_ofTriples triples) maxDistance
  refine ⟨result, result', hrun, hrun', ?_⟩
  cases hresults with
  | none => exact .none
  | some halike =>
      have hedges :=
        halike.edgeCount_eq (nodup_ends_of_relevant hrun) (nodup_ends_of_relevant hrun')
      exact .some ⟨halike, halike.vertexCount_eq, hedges, halike.degree_eq⟩

end Orders

/-- Two mentions with three senses, and the same after some rearrangement. -/
def draft : SenseRows String String :=
  [("m", ["a", "c"]), ("n", ["b"])]

def copied : SenseRows String String :=
  [("n", ["b"]), ("idle", []), ("m", ["a", "c", "a"])]

theorem relevant_rearranged_copied :
    Relation.EqvGen Rearrangement draft copied ∧
      ∃ result result',
        (relevant (TripleStore.ofTriples [⟨"b", "p", "x"⟩, ⟨"x", "p", "a"⟩]).graph 2
          draft.uris).outcome = .ok result ∧
        (relevant (TripleStore.ofTriples [⟨"b", "p", "x"⟩, ⟨"x", "p", "a"⟩]).graph 2
          copied.uris).outcome = .ok result' ∧
        Option.Rel (fun g g' => g.Alike g' ∧ g.vertexCount = g'.vertexCount ∧
          g.edgeCount = g'.edgeCount ∧ ∀ u, g.degree u = g'.degree u) result result' := by
  have hsenses : Rearrangement draft [("m", ["c", "a"]), ("n", ["b"])] :=
    .senses [] [("n", ["b"])] "m" (.swap "c" "a" [])
  have hrepeated : Rearrangement [("m", ["c", "a"]), ("n", ["b"])]
      [("m", ["a", "c", "a"]), ("n", ["b"])] :=
    .repeated [] [("n", ["b"])] "m" (List.mem_cons_of_mem "c" List.mem_cons_self) rfl
  have hmentions : Rearrangement [("m", ["a", "c", "a"]), ("n", ["b"])]
      [("n", ["b"]), ("m", ["a", "c", "a"])] :=
    .mentions (.swap _ _ _)
  have hidle : Rearrangement [("n", ["b"]), ("m", ["a", "c", "a"])] copied :=
    .idle [("n", ["b"])] [("m", ["a", "c", "a"])] "idle"
  have h : Relation.EqvGen Rearrangement draft copied :=
    .trans _ _ _ (.rel _ _ hsenses) <| .trans _ _ _ (.rel _ _ hrepeated) <|
      .trans _ _ _ (.rel _ _ hmentions) (.rel _ _ hidle)
  exact ⟨h, relevant_rearranged _ 2 h⟩

end Search
end EntityLinking
