import BuildPipeline.Repository
import Mathlib.Data.List.Induction
import Mathlib.Data.List.Nodup

/-!
The children of a repository are an ordered map from URI to repository. A child takes the place of
the one that has its URI, or the place behind the last one, and a child without URI is no entry of
the map: nothing ever takes its place. As long as no two children have the same URI, a row of
updates comes to two things, which `children_updateAll` gives as one equation: the children that
find nothing to replace are put at the end in the order in which they come (`newcomers`), and in
every place stands the last child that came with its URI (`renewed`).
-/

namespace BuildPipeline.Repository

variable {r c d : Repository} {children cs : List Repository} {uri : String} {known : List String}

/-- The URIs that a list of repositories has, in its order. -/
def urisOf (children : List Repository) : List String :=
  children.filterMap (·.uri)

/-- No two children have the same URI; any number of them may have none. -/
def Distinct (r : Repository) : Prop :=
  (urisOf r.children).Nodup

/-- The child that is stored for a URI. -/
def child? (r : Repository) (uri : String) : Option Repository :=
  r.children.find? (·.uri == some uri)

/-- A row of updates, one after the other. -/
def updateAll (r : Repository) (cs : List Repository) : Repository :=
  cs.foldl updateChild r

/-- The last repository of a row that has a URI. -/
def lastFor? (cs : List Repository) (uri : String) : Option Repository :=
  cs.reverse.find? (·.uri == some uri)

/-- What stands in the place of a child behind a row of updates. -/
def renewed (cs : List Repository) (child : Repository) : Repository :=
  (child.uri.bind (lastFor? cs)).getD child

/-- The updates of a row that find no child to replace, given the URIs that are known before. -/
def newcomers (known : List String) : List Repository → List Repository
  | [] => []
  | c :: cs =>
    match c.uri with
    | none => c :: newcomers known cs
    | some uri =>
      if uri ∈ known then newcomers known cs else c :: newcomers (known ++ [uri]) cs

/-! ## One update -/

theorem sameChild_iff : r.sameChild c = true ↔ r.uri = c.uri ∧ c.uri ≠ none := by
  unfold sameChild
  rw [Bool.and_eq_true, beq_iff_eq, Option.isSome_iff_ne_none]
  constructor
  · rintro ⟨some_, same⟩
    exact ⟨same, same ▸ some_⟩
  · rintro ⟨same, some_⟩
    exact ⟨same ▸ some_, same⟩

/-- The child in the place of `child` behind an update by `c`. -/
def step (c child : Repository) : Repository :=
  if child.sameChild c then c else child

theorem step_of_ne (ne : child.uri = c.uri → c.uri = none) : step c child = child := by
  unfold step
  rw [if_neg]
  intro same
  obtain ⟨eq, some_⟩ := sameChild_iff.1 same
  exact some_ (ne eq)

theorem uri_step (c child : Repository) : (step c child).uri = child.uri := by
  unfold step
  split
  · rename_i same
    exact (sameChild_iff.1 same).1.symm
  · rfl

/-- An update that finds nothing to replace appends. -/
theorem replaceOrAppend_of_new (new : ∀ child ∈ children, child.uri = c.uri → c.uri = none) :
    replaceOrAppend c children = children.map (step c) ++ [c] := by
  induction children with
  | nil => rfl
  | cons child rest ih =>
      obtain ⟨here, later⟩ := List.forall_mem_cons.1 new
      have other : ¬child.sameChild c = true := fun same =>
        (sameChild_iff.1 same).2 (here (sameChild_iff.1 same).1)
      rw [replaceOrAppend, if_neg other, ih later, List.map_cons, step_of_ne here,
        List.cons_append]

/-- An update that finds a child replaces it and no other. -/
theorem replaceOrAppend_of_known (distinct : (urisOf children).Nodup) (own : c.uri = some uri)
    (known : uri ∈ urisOf children) : replaceOrAppend c children = children.map (step c) := by
  induction children with
  | nil => cases known
  | cons child rest ih =>
      by_cases same : child.sameChild c = true
      · have here : child.uri = some uri := (sameChild_iff.1 same).1.trans own
        -- the URI is used up, so the children behind stay as they are
        have kept : ∀ other ∈ rest, step c other = other := by
          intro other mem
          refine step_of_ne fun eq => ?_
          rw [urisOf, List.filterMap_cons_some here] at distinct
          refine absurd ?_ (List.nodup_cons.1 distinct).1
          exact List.mem_filterMap.2 ⟨other, mem, eq.trans own⟩
        rw [replaceOrAppend, if_pos same, List.map_cons, List.map_congr_left kept, List.map_id',
          step, if_pos same]
      · have ne : child.uri ≠ some uri := fun here =>
          same (sameChild_iff.2 ⟨here.trans own.symm, by simp [own]⟩)
        have later : uri ∈ urisOf rest := by
          obtain ⟨found, mem, eq⟩ := List.mem_filterMap.1 known
          rcases List.mem_cons.1 mem with rfl | mem
          · exact absurd eq ne
          · exact List.mem_filterMap.2 ⟨found, mem, eq⟩
        have distinct' : (urisOf rest).Nodup :=
          distinct.sublist ((List.sublist_cons_self child rest).filterMap _)
        rw [replaceOrAppend, if_neg same, ih distinct' later, List.map_cons, step, if_neg same]

theorem urisOf_map_step (c : Repository) (children : List Repository) :
    urisOf (children.map (step c)) = urisOf children := by
  unfold urisOf
  rw [List.filterMap_map]
  exact List.filterMap_congr fun child _ => uri_step c child

theorem urisOf_append_nameless (none_ : c.uri = none) :
    urisOf (children ++ [c]) = urisOf children := by
  unfold urisOf
  rw [List.filterMap_append, List.filterMap_cons_none none_, List.filterMap_nil, List.append_nil]

theorem urisOf_append_single (own : c.uri = some uri) :
    urisOf (children ++ [c]) = urisOf children ++ [uri] := by
  unfold urisOf
  rw [List.filterMap_append, List.filterMap_cons_some own, List.filterMap_nil]

/-- What an update makes of children of which no two have the same URI. -/
inductive Updates (c : Repository) (children : List Repository) : List Repository → Prop
  | nameless (none_ : c.uri = none) : Updates c children (children.map (step c) ++ [c])
  | new (uri : String) (own : c.uri = some uri) (fresh : uri ∉ urisOf children) :
      Updates c children (children.map (step c) ++ [c])
  | known (uri : String) (own : c.uri = some uri) (found : uri ∈ urisOf children) :
      Updates c children (children.map (step c))

theorem updates (c : Repository) (distinct : (urisOf children).Nodup) :
    Updates c children (replaceOrAppend c children) := by
  cases own : c.uri with
  | none =>
      rw [replaceOrAppend_of_new fun _ _ _ => own]
      exact .nameless own
  | some uri =>
      by_cases found : uri ∈ urisOf children
      · rw [replaceOrAppend_of_known distinct own found]
        exact .known uri own found
      · rw [replaceOrAppend_of_new]
        · exact .new uri own found
        · intro child mem same
          exact absurd (List.mem_filterMap.2 ⟨child, mem, same.trans own⟩) found

theorem Distinct.update (distinct : r.Distinct) (c : Repository) :
    (r.updateChild c).Distinct := by
  have updates := updates c distinct
  unfold Distinct Repository.updateChild
  generalize replaceOrAppend c r.children = children at updates
  cases updates with
  | nameless none_ =>
      rw [urisOf_append_nameless none_, urisOf_map_step]
      exact distinct
  | new uri own fresh =>
      rw [urisOf_append_single own, urisOf_map_step]
      refine List.nodup_append.2 ⟨distinct, List.nodup_singleton uri, ?_⟩
      intro known mem other own
      rw [List.mem_singleton.1 own]
      exact fun same => fresh (same ▸ mem)
  | known =>
      rw [urisOf_map_step]
      exact distinct

/-- The child that is stored for the URI of an update is the update; for others it stays. -/
theorem child?_updateChild (r c : Repository) (uri : String) :
    (r.updateChild c).child? uri = if c.uri = some uri then some c else r.child? uri := by
  unfold child? updateChild
  induction r.children with
  | nil => by_cases own : c.uri = some uri <;> simp [replaceOrAppend, own]
  | cons child rest ih =>
      unfold replaceOrAppend
      split
      · rename_i same
        have uris := (sameChild_iff.1 same).1
        by_cases own : c.uri = some uri <;> simp [own, uris]
      · rename_i other
        rw [List.find?_cons, List.find?_cons]
        cases here : child.uri == some uri with
        | false => exact ih
        | true =>
            -- an update with the URI of the first child would have replaced it
            have ne : c.uri ≠ some uri := by
              intro own
              refine other (sameChild_iff.2 ⟨?_, by simp [own]⟩)
              rw [own]
              exact eq_of_beq here
            exact (if_neg ne).symm

/-- What is stored already changes nothing. -/
theorem updateChild_of_stored (stored : r.child? uri = some c) : r.updateChild c = r := by
  have own : c.uri = some uri := by simpa using List.find?_some stored
  suffices same : replaceOrAppend c r.children = r.children by
    unfold updateChild
    rw [same]
    cases r
    rfl
  unfold child? at stored
  generalize r.children = children at stored
  induction children with
  | nil => cases stored
  | cons child rest ih =>
      rw [List.find?_cons] at stored
      unfold replaceOrAppend
      split at stored
      · cases stored
        rw [if_pos (sameChild_iff.2 ⟨rfl, by simp [own]⟩)]
      · rename_i ne
        have other : ¬child.sameChild c = true := by
          intro same
          rw [(sameChild_iff.1 same).1, own] at ne
          simp at ne
        rw [if_neg other, ih stored]

theorem step_comm (ne : c.uri ≠ d.uri) (child : Repository) :
    step d (step c child) = step c (step d child) := by
  by_cases own : child.uri = c.uri
  · have other : child.uri ≠ d.uri := fun same => ne (own.symm.trans same)
    rw [step_of_ne fun same : child.uri = d.uri => absurd same other]
    refine step_of_ne fun same => ?_
    rw [uri_step] at same
    exact absurd same other
  · rw [step_of_ne fun same : child.uri = c.uri => absurd same own]
    refine (step_of_ne fun same => ?_).symm
    rw [uri_step] at same
    exact absurd same own

/-- Two updates that replace different children may change places. -/
theorem Distinct.update_comm {other : String} (distinct : r.Distinct)
    (own : c.uri = some uri) (known : uri ∈ urisOf r.children) (own' : d.uri = some other)
    (known' : other ∈ urisOf r.children) (ne : uri ≠ other) :
    (r.updateChild c).updateChild d = (r.updateChild d).updateChild c := by
  have apart : c.uri ≠ d.uri := by
    rw [own, own']
    exact fun same => ne (Option.some.inj same)
  have replaced : ∀ {c uri}, c.uri = some uri → uri ∈ urisOf r.children →
      r.updateChild c = { r with children := r.children.map (step c) } := by
    intro c uri own known
    unfold updateChild
    rw [replaceOrAppend_of_known distinct own known]
  have again : ∀ {c d uri}, d.uri = some uri → uri ∈ urisOf r.children →
      replaceOrAppend d (r.children.map (step c)) = (r.children.map (step c)).map (step d) := by
    intro c d uri own known
    rw [← urisOf_map_step c] at known
    refine replaceOrAppend_of_known ?_ own known
    rw [urisOf_map_step]
    exact distinct
  rw [replaced own known, replaced own' known']
  unfold updateChild
  rw [again own' known', again own known, List.map_map, List.map_map]
  congr 1
  exact List.map_congr_left fun child _ => step_comm apart child

/-! ## Rows of updates -/

theorem renewed_cons (c : Repository) (cs : List Repository) (child : Repository) :
    renewed (c :: cs) child = renewed cs (step c child) := by
  unfold renewed
  rw [uri_step]
  cases uris : child.uri with
  | none =>
      rw [step_of_ne fun same => same.symm.trans uris]
      rfl
  | some uri =>
      simp only [Option.bind_some, lastFor?, List.reverse_cons, List.find?_append]
      cases later : cs.reverse.find? (·.uri == some uri) with
      | some last => rfl
      | none =>
          by_cases own : c.uri = some uri
          · have same : child.sameChild c = true :=
              sameChild_iff.2 ⟨uris.trans own.symm, by simp [own]⟩
            simp [own, step, same]
          · rw [step_of_ne fun same => absurd (same.symm.trans uris) own]
            simp [own]

/-- A newcomer has no URI that is known. -/
theorem not_known_of_newcomer {child : Repository} (mem : child ∈ newcomers known cs)
    (own : child.uri = some uri) : uri ∉ known := by
  induction cs generalizing known with
  | nil => cases mem
  | cons c cs ih =>
      unfold newcomers at mem
      split at mem
      · rename_i none_
        rcases List.mem_cons.1 mem with rfl | later
        · cases none_.symm.trans own
        · exact ih later
      · rename_i uri' own'
        split at mem
        · exact ih mem
        · rename_i fresh
          rcases List.mem_cons.1 mem with rfl | later
          · cases own'.symm.trans own
            exact fresh
          · exact fun before => ih later (List.mem_append_left _ before)

/-- An update leaves the newcomers alone that come behind it. -/
theorem map_step_newcomers (own : ∀ uri, c.uri = some uri → uri ∈ known) :
    (newcomers known cs).map (step c) = newcomers known cs := by
  have kept : ∀ child ∈ newcomers known cs, step c child = child := by
    intro child mem
    refine step_of_ne fun same => ?_
    cases uris : c.uri with
    | none => rfl
    | some uri => exact absurd (own uri uris) (not_known_of_newcomer mem (same.trans uris))
  rw [List.map_congr_left kept, List.map_id']

/-- What a row of updates makes of the children. -/
theorem Distinct.children_updateAll (distinct : r.Distinct) (cs : List Repository) :
    (r.updateAll cs).children =
      (r.children ++ newcomers (urisOf r.children) cs).map (renewed cs) := by
  induction cs generalizing r with
  | nil =>
      have kept : renewed [] = id := by
        funext child
        cases uris : child.uri <;> simp [renewed, lastFor?, uris]
      simp [updateAll, newcomers, kept]
  | cons c cs ih =>
      have next := ih (distinct.update c)
      have whole : renewed (c :: cs) = renewed cs ∘ step c := funext (renewed_cons c cs)
      rw [updateAll, List.foldl_cons, ← updateAll, next, whole, ← List.map_map]
      congr 1
      have updates := updates c distinct
      simp only [updateChild]
      generalize replaceOrAppend c r.children = children at updates
      cases updates with
      | nameless none_ =>
          have kept : step c c = c := step_of_ne fun _ => none_
          have own : ∀ uri, c.uri = some uri → uri ∈ urisOf r.children := by simp [none_]
          rw [urisOf_append_nameless none_, urisOf_map_step, newcomers, none_]
          simp [kept, map_step_newcomers own]
      | new uri own fresh =>
          have kept : step c c = c := by unfold step; split <;> rfl
          have own' : ∀ other, c.uri = some other → other ∈ urisOf r.children ++ [uri] := by
            simp [own]
          rw [urisOf_append_single own, urisOf_map_step, newcomers, own]
          simp [fresh, kept, map_step_newcomers own']
      | known uri own found =>
          have own' : ∀ other, c.uri = some other → other ∈ urisOf r.children := by
            intro other same
            cases own.symm.trans same
            exact found
          rw [urisOf_map_step, newcomers, own]
          simp [found, map_step_newcomers own']

theorem updateAll_concat (r : Repository) (cs : List Repository) (c : Repository) :
    r.updateAll (cs ++ [c]) = (r.updateAll cs).updateChild c :=
  List.foldl_concat ..

/-- Behind a row of updates the last one of a URI is stored for it. -/
theorem child?_updateAll (r : Repository) (cs : List Repository) (uri : String) :
    (r.updateAll cs).child? uri = (lastFor? cs uri <|> r.child? uri) := by
  induction cs using List.reverseRecOn with
  | nil => rfl
  | append_singleton cs c ih =>
      rw [updateAll_concat, child?_updateChild, ih]
      by_cases own : c.uri = some uri <;> simp [lastFor?, own]

theorem Distinct.updateAll (distinct : r.Distinct) (cs : List Repository) :
    (r.updateAll cs).Distinct := by
  induction cs using List.reverseRecOn with
  | nil => exact distinct
  | append_singleton cs c ih =>
      rw [updateAll_concat]
      exact ih.update c

/-- A row of updates changes nothing but the children. -/
theorem updateAll_eq (r : Repository) (cs : List Repository) :
    r.updateAll cs = { r with children := (r.updateAll cs).children } := by
  induction cs using List.reverseRecOn with
  | nil => cases r; rfl
  | append_singleton cs c ih =>
      rw [updateAll_concat, ih]
      rfl

/-- The children are an ordered map by URI. Behind any row of updates no two have the same URI, and
for each URI the last child is stored that was given for it; the children stand where they stood,
those that are new or have no URI behind them in the order in which they came, and none is lost. An
update with a URI that is made again changes nothing, and two updates that replace different
children may change places. -/
theorem ordered_map (r : Repository) (distinct : r.Distinct) (cs : List Repository) :
    (r.updateAll cs).Distinct ∧
      (∀ uri, (r.updateAll cs).child? uri = (lastFor? cs uri <|> r.child? uri)) ∧
      r.updateAll cs =
        { r with children := (r.children ++ newcomers (urisOf r.children) cs).map (renewed cs) } ∧
      (∀ c, c.uri ≠ none →
        ((r.updateAll cs).updateChild c).updateChild c = (r.updateAll cs).updateChild c) ∧
      ∀ c d uri other, c.uri = some uri → uri ∈ urisOf (r.updateAll cs).children →
        d.uri = some other → other ∈ urisOf (r.updateAll cs).children → uri ≠ other →
        ((r.updateAll cs).updateChild c).updateChild d =
          ((r.updateAll cs).updateChild d).updateChild c := by
  have whole := updateAll_eq r cs
  rw [distinct.children_updateAll cs] at whole
  refine ⟨distinct.updateAll cs, child?_updateAll r cs, whole, ?_, ?_⟩
  · intro c some_
    obtain ⟨uri, own⟩ := Option.ne_none_iff_exists'.1 some_
    have stored : ((r.updateAll cs).updateChild c).child? uri = some c := by
      rw [child?_updateChild, if_pos own]
    exact updateChild_of_stored stored
  · intro c d uri other own known own' known' ne
    exact (distinct.updateAll cs).update_comm own known own' known' ne

/-- A child that is replaced, one that is new and replaced later, and some without URI. -/
def mixed : Repository where
  children :=
    [{ uri := some "a" }, { branch := some "first" }, { uri := some "b" }]

def mixedUpdates : List Repository :=
  [{ uri := some "c" }, { branch := some "second" }, { uri := some "b", branch := some "main" },
    { branch := some "second" }, { uri := some "c", branch := some "main" }]

theorem ordered_map_mixed :
    mixed.Distinct ∧ (mixed.updateAll mixedUpdates).Distinct ∧
      mixed.updateAll mixedUpdates =
        { mixed with
          children := [{ uri := some "a" }, { branch := some "first" },
            { uri := some "b", branch := some "main" }, { uri := some "c", branch := some "main" },
            { branch := some "second" }, { branch := some "second" }] } := by
  have distinct : mixed.Distinct := by
    unfold Distinct
    decide
  obtain ⟨kept, -, children, -⟩ := ordered_map mixed distinct mixedUpdates
  exact ⟨distinct, kept, children.trans (by decide)⟩

end BuildPipeline.Repository
