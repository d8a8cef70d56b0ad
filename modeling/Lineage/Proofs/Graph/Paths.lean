import Mathlib.Data.List.Induction
import Mathlib.Data.List.Nodup
import Lineage.Graph.Store

/-!
# Relations that fall into paths

A path is a list of nodes, with a relation from each to the one behind it (`pathRelations`).
Relations *form* some paths when they are the relations of these paths, no node is on two of them,
and none is twice on one (`FormsPaths`).

`exists_formsPaths` says when they do: no node has two relations that start from it, and every
relation leads upwards, to a node with a greater id than those before it.  A relation then continues
the path that ends in the node it starts from, or begins a path.
-/

namespace Lineage.Graph

/-- The relations of a class along a path. -/
def pathRelations (cls : RelClass) : List NodeId → List Relation
  | src :: dst :: path => ⟨src, dst, cls⟩ :: pathRelations cls (dst :: path)
  | _ => []

/-- Some relations are those of some paths without a common node. -/
structure FormsPaths (cls : RelClass) (relations : List Relation) (paths : List (List NodeId)) :
    Prop where
  /-- The paths are simple, and no two of them have a node in common. -/
  nodup : paths.flatten.Nodup
  /-- Every path has a relation. -/
  two_le_length : ∀ path ∈ paths, 2 ≤ path.length
  /-- Every relation is on one of the paths. -/
  perm : relations.Perm (paths.flatMap (pathRelations cls))

variable {cls : RelClass}

/-! ## One path -/

theorem map_src_pathRelations (path : List NodeId) :
    (pathRelations cls path).map Relation.src = path.dropLast := by
  fun_induction pathRelations cls path with
  | case1 src dst path ih => rw [List.map_cons, ih, List.dropLast_cons_cons]
  | case2 path hshort =>
      match path with
      | [] => rfl
      | [_] => rfl
      | src :: dst :: rest => exact absurd rfl (hshort src dst rest)

theorem map_dst_pathRelations (path : List NodeId) :
    (pathRelations cls path).map Relation.dst = path.tail := by
  fun_induction pathRelations cls path with
  | case1 src dst path ih => rw [List.map_cons, ih, List.tail_cons, List.tail_cons]
  | case2 path hshort =>
      match path with
      | [] => rfl
      | [_] => rfl
      | src :: dst :: rest => exact absurd rfl (hshort src dst rest)

/-- A path that is continued has one more relation. -/
theorem pathRelations_concat (path : List NodeId) (src dst : NodeId) :
    pathRelations cls (path ++ [src, dst]) =
      pathRelations cls (path ++ [src]) ++ [⟨src, dst, cls⟩] := by
  induction path with
  | nil => rfl
  | cons first path ih =>
      cases path with
      | nil => rfl
      | cons second path =>
          simp only [List.cons_append, pathRelations] at ih ⊢
          rw [ih]

/-- What the two ends of every relation share, all nodes of a path share. -/
theorem exists_common {P : Uuid → NodeId → Prop}
    (hunique : ∀ {uuid uuid' id}, P uuid id → P uuid' id → uuid = uuid') {path : List NodeId}
    (hlength : 2 ≤ path.length)
    (hends : ∀ ρ ∈ pathRelations cls path, ∃ uuid, P uuid ρ.src ∧ P uuid ρ.dst) :
    ∃ uuid, ∀ id ∈ path, P uuid id := by
  fun_induction pathRelations cls path with
  | case1 src dst path ih =>
      obtain ⟨uuid, hsrc, hdst⟩ := hends ⟨src, dst, cls⟩ (List.mem_cons_self ..)
      cases path with
      | nil => exact ⟨uuid, by simp [hsrc, hdst]⟩
      | cons next path =>
          obtain ⟨uuid', hrest⟩ :=
            ih (by simp) fun ρ hρ => hends ρ (List.mem_cons_of_mem _ hρ)
          obtain rfl := hunique hdst (hrest dst (List.mem_cons_self ..))
          exact ⟨uuid, List.forall_mem_cons.mpr ⟨hsrc, hrest⟩⟩
  | case2 path hshort =>
      match path, hlength with
      | src :: dst :: rest, _ => exact absurd rfl (hshort src dst rest)

/-! ## Many paths -/

namespace FormsPaths

variable {relations : List Relation} {paths : List (List NodeId)}

/-- A node on a path is at the end of a relation. -/
theorem exists_relation (h : FormsPaths cls relations paths) {id : NodeId}
    (hid : id ∈ paths.flatten) : ∃ ρ ∈ relations, ρ.src = id ∨ ρ.dst = id := by
  obtain ⟨path, hpath, hid⟩ := List.mem_flatten.mp hid
  have hrelation : ∃ ρ ∈ pathRelations cls path, ρ.src = id ∨ ρ.dst = id := by
    have hlength := h.two_le_length path hpath
    match path, hlength with
    | first :: second :: rest, _ =>
        cases List.mem_cons.mp hid with
        | inl hfirst =>
            exact ⟨⟨first, second, cls⟩, List.mem_cons_self .., .inl hfirst.symm⟩
        | inr hrest =>
            have hdst : id ∈ (pathRelations cls (first :: second :: rest)).map Relation.dst := by
              rwa [map_dst_pathRelations]
            obtain ⟨ρ, hρ, hid⟩ := List.mem_map.mp hdst
            exact ⟨ρ, hρ, .inr hid⟩
  obtain ⟨ρ, hρ, hid⟩ := hrelation
  exact ⟨ρ, h.perm.mem_iff.mpr (List.mem_flatMap.mpr ⟨path, hpath, hρ⟩), hid⟩

/-- A relation between two nodes that are on no path begins one. -/
theorem begin (h : FormsPaths cls relations paths) {src dst : NodeId} (hsrc : src ∉ paths.flatten)
    (hdst : dst ∉ paths.flatten) (hne : src ≠ dst) :
    FormsPaths cls (relations ++ [⟨src, dst, cls⟩]) ([src, dst] :: paths) where
  nodup := by
    rw [List.flatten_cons]
    simp [hsrc, hdst, hne, h.nodup]
  two_le_length := List.forall_mem_cons.mpr ⟨Nat.le_refl 2, h.two_le_length⟩
  perm := by
    rw [List.flatMap_cons]
    exact List.perm_append_comm.trans (h.perm.append_left _)

/-- A relation from the last node of a path continues it. -/
theorem extend {before after : List (List NodeId)} {path : List NodeId} {src dst : NodeId}
    (h : FormsPaths cls relations (before ++ (path ++ [src]) :: after))
    (hdst : dst ∉ (before ++ (path ++ [src]) :: after).flatten) :
    FormsPaths cls (relations ++ [⟨src, dst, cls⟩])
      (before ++ (path ++ [src, dst]) :: after) where
  nodup := by
    have hperm : (before ++ (path ++ [src, dst]) :: after).flatten.Perm
        (dst :: (before ++ (path ++ [src]) :: after).flatten) := by
      have hleft : (before ++ (path ++ [src, dst]) :: after).flatten =
          (before.flatten ++ (path ++ [src])) ++ dst :: after.flatten := by simp
      have hright : (before ++ (path ++ [src]) :: after).flatten =
          (before.flatten ++ (path ++ [src])) ++ after.flatten := by simp
      rw [hleft, hright]
      exact List.perm_middle
    exact hperm.nodup_iff.mpr (List.nodup_cons.mpr ⟨hdst, h.nodup⟩)
  two_le_length := by
    intro other hother
    simp only [List.mem_append, List.mem_cons] at hother
    rcases hother with hbefore | rfl | hafter
    · exact h.two_le_length other (by simp [hbefore])
    · simp
    · exact h.two_le_length other (by simp [hafter])
  perm := by
    have hperm := h.perm
    simp only [List.flatMap_append, List.flatMap_cons] at hperm ⊢
    rw [pathRelations_concat]
    refine (hperm.append_right _).trans ?_
    simp only [List.append_assoc]
    exact ((List.perm_append_comm.append_left _).append_left _)

/-- One more relation, from a node that no other starts from to a node that is on no path. -/
theorem exists_concat (h : FormsPaths cls relations paths) {src dst : NodeId}
    (hsrc : src ∉ relations.map Relation.src) (hdst : dst ∉ paths.flatten) (hne : src ≠ dst) :
    ∃ paths', FormsPaths cls (relations ++ [⟨src, dst, cls⟩]) paths' := by
  by_cases hon : src ∈ paths.flatten
  · obtain ⟨path, hpath, hmem⟩ := List.mem_flatten.mp hon
    -- All nodes of a path but the last one have a relation that starts from them.
    have hlast : src ∉ path.dropLast := by
      intro hmem
      rw [← @map_src_pathRelations cls] at hmem
      obtain ⟨ρ, hρ, rfl⟩ := List.mem_map.mp hmem
      exact hsrc (List.mem_map_of_mem
        (h.perm.mem_iff.mpr (List.mem_flatMap.mpr ⟨path, hpath, hρ⟩)))
    have hne_nil : path ≠ [] := List.ne_nil_of_mem hmem
    obtain ⟨before, after, rfl⟩ := List.append_of_mem hpath
    rw [← List.dropLast_append_getLast hne_nil] at hmem h hdst
    have heq : src = path.getLast hne_nil :=
      List.mem_singleton.mp ((List.mem_append.mp hmem).resolve_left hlast)
    rw [← heq] at h hdst
    exact ⟨_, h.extend hdst⟩
  · exact ⟨_, h.begin hon hdst hne⟩

end FormsPaths

/-- Relations that lead upwards, no two of them from one node, form paths. -/
theorem exists_formsPaths {relations : List Relation} (hcls : ∀ ρ ∈ relations, ρ.cls = cls)
    (hup : ∀ ρ ∈ relations, ρ.src < ρ.dst) (hsrc : (relations.map Relation.src).Nodup)
    (hdst : (relations.map Relation.dst).Pairwise (· < ·)) :
    ∃ paths, FormsPaths cls relations paths := by
  induction relations using List.reverseRecOn with
  | nil => exact ⟨[], .nil, by simp, .nil⟩
  | append_singleton relations ρ ih =>
      obtain ⟨src, dst, cls'⟩ := ρ
      obtain rfl : cls' = cls := hcls _ (List.mem_append_right _ (List.mem_singleton_self _))
      rw [List.map_append] at hsrc hdst
      obtain ⟨hsrc, _, hnew⟩ := List.nodup_append.mp hsrc
      obtain ⟨hdst, _, hlast⟩ := List.pairwise_append.mp hdst
      obtain ⟨paths, hpaths⟩ := ih (fun ρ hρ => hcls ρ (List.mem_append_left _ hρ))
        (fun ρ hρ => hup ρ (List.mem_append_left _ hρ)) hsrc hdst
      have hup' : src < dst := hup _ (List.mem_append_right _ (List.mem_singleton_self _))
      refine hpaths.exists_concat ?_ ?_ (Nat.ne_of_lt hup')
      · intro hmem
        exact hnew _ hmem _ (List.mem_singleton_self _) rfl
      · intro hmem
        -- The new node is greater than the ends of all relations before it.
        obtain ⟨ρ, hρ, hend⟩ := hpaths.exists_relation hmem
        have hbelow : ρ.dst < dst :=
          hlast _ (List.mem_map_of_mem hρ) _ (List.mem_singleton_self _)
        have hupward : ρ.src < ρ.dst := hup ρ (List.mem_append_left _ hρ)
        cases hend with
        | inl hend => exact Nat.ne_of_lt (Nat.lt_trans hupward hbelow) hend
        | inr hend => exact Nat.ne_of_lt hbelow hend

end Lineage.Graph
