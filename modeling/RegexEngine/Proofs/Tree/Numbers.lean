import Mathlib.Data.List.Basic
import RegexEngine.Proofs.Tree.Parsed

/-!
The numbers of capturing groups. In a tree that was read, the groups are numbered from 1 without
gaps in the order in which they open, so no two of them have the same number.

When groups are numbered anew, references follow them. A group is told by its place among all
expressions of the tree, since its number changes. Numbering keeps the places, so that a tree before
and after can be compared place by place: a reference that named a group names the group at the same
place, the first one where several had the number. A reference that named none keeps its number,
which may be that of a group afterwards.
-/

namespace RegexEngine

namespace Tree

/-- What is found at all expressions of a tree, one after the other. -/
def gather (find : Tree → List Nat) (t : Tree) : List Nat := t.preorder.flatMap find

section Constructors

variable (find : Tree → List Nat) (t u v : Tree)

theorem flatMap_preorders (items : List Tree) :
    (preorders items).flatMap find = items.flatMap (gather find) := by
  induction items with
  | nil => rfl
  | cons item rest ih => simp [gather, ih]

@[simp] theorem gather_capture (index : Nat) (name : Option String) :
    gather find (capture index name t) = find (capture index name t) ++ gather find t := by
  simp [gather]

@[simp] theorem gather_group : gather find (group t) = find (group t) ++ gather find t := by
  simp [gather]

@[simp] theorem gather_scope (opts : OptionSet) :
    gather find (scope opts t) = find (scope opts t) ++ gather find t := by
  simp [gather]

@[simp] theorem gather_repetition (q : Quantifier) :
    gather find (repetition q t) = find (repetition q t) ++ gather find t := by
  simp [gather]

@[simp] theorem gather_look (kind : LookKind) :
    gather find (look kind t) = find (look kind t) ++ gather find t := by
  simp [gather]

@[simp] theorem gather_atomic : gather find (atomic t) = find (atomic t) ++ gather find t := by
  simp [gather]

@[simp] theorem gather_groupCond_none (ref : GroupRef) :
    gather find (groupCond ref t none) = find (groupCond ref t none) ++ gather find t := by
  simp [gather]

@[simp] theorem gather_groupCond_some (ref : GroupRef) :
    gather find (groupCond ref t (some u)) =
      find (groupCond ref t (some u)) ++ (gather find t ++ gather find u) := by
  simp [gather]

@[simp] theorem gather_lookCond_none (kind : LookKind) :
    gather find (lookCond kind t u none) =
      find (lookCond kind t u none) ++ (gather find t ++ gather find u) := by
  simp [gather]

@[simp] theorem gather_lookCond_some (kind : LookKind) :
    gather find (lookCond kind t u (some v)) =
      find (lookCond kind t u (some v)) ++ (gather find t ++ (gather find u ++ gather find v)) := by
  simp [gather]

@[simp] theorem gather_alt (items : List Tree) :
    gather find (alt items) = find (alt items) ++ items.flatMap (gather find) := by
  simp [gather, flatMap_preorders]

@[simp] theorem gather_concat (items : List Tree) :
    gather find (concat items) = find (concat items) ++ items.flatMap (gather find) := by
  simp [gather, flatMap_preorders]

end Constructors

/-- The number of a capturing group. -/
def captureIndex : Tree → List Nat
  | capture index _ _ => [index]
  | _ => []

/-- The numbers of the capturing groups of a tree, in the order in which they open. -/
def indices (t : Tree) : List Nat := t.gather captureIndex

mutual

/-- Renaming references leaves the numbers of groups alone. -/
theorem indices_mapRefs (rename : Nat → Nat) : (t : Tree) → (mapRefs rename t).indices = t.indices
  | .capture index _ c => congrArg (index :: ·) (indices_mapRefs rename c)
  | .group c | .scope _ c | .repetition _ c | .look _ c | .atomic c
  | .groupCond _ c none => by
    simpa [indices, captureIndex, mapRefs] using indices_mapRefs rename c
  | .groupCond _ y (some n) => by
    have hyes := indices_mapRefs rename y
    have hno := indices_mapRefs rename n
    simp_all [indices, captureIndex, mapRefs]
  | .lookCond _ t y none => by
    have htest := indices_mapRefs rename t
    have hyes := indices_mapRefs rename y
    simp_all [indices, captureIndex, mapRefs]
  | .lookCond _ t y (some n) => by
    have htest := indices_mapRefs rename t
    have hyes := indices_mapRefs rename y
    have hno := indices_mapRefs rename n
    simp_all [indices, captureIndex, mapRefs]
  | .alt items | .concat items => by
    simpa [indices, captureIndex, mapRefs] using indices_mapRefsAll rename items
  | .empty | .invalid | .literal _ | .dot | .cls _ _ | .backref _ | .anchor _ | .boundary _
  | .comment _ | .options _ | .verb _ => rfl

theorem indices_mapRefsAll (rename : Nat → Nat) : (items : List Tree) →
    (mapRefsAll rename items).flatMap (gather captureIndex) = items.flatMap (gather captureIndex)
  | [] => rfl
  | item :: rest => by
    have hitem := indices_mapRefs rename item
    have hrest := indices_mapRefsAll rename rest
    simp_all [indices, mapRefsAll]

end

mutual

/-- Groups are numbered without gaps. -/
theorem number_indices : (t : Tree) → (next : Nat) →
    (number next t).1.indices = List.range' next t.indices.length ∧
      (number next t).2 = next + t.indices.length
  | .capture _ _ c, next => by
    have ⟨hindices, hafter⟩ := number_indices c (next + 1)
    simp_all [indices, captureIndex, number, List.range'_succ]
    omega
  | .group c, next | .scope _ c, next | .repetition _ c, next | .look _ c, next | .atomic c, next
  | .groupCond _ c none, next => by
    simpa [indices, captureIndex, number] using number_indices c next
  | .groupCond _ y (some n), next => by
    have hyes := number_indices y next
    have hno := number_indices n (next + y.indices.length)
    simp_all [indices, captureIndex, number, ← List.range'_append_1, Nat.add_assoc]
  | .lookCond _ t y none, next => by
    have htest := number_indices t next
    have hyes := number_indices y (next + t.indices.length)
    simp_all [indices, captureIndex, number, ← List.range'_append_1, Nat.add_assoc]
  | .lookCond _ t y (some n), next => by
    have htest := number_indices t next
    have hyes := number_indices y (next + t.indices.length)
    have hno := number_indices n (next + t.indices.length + y.indices.length)
    simp_all [indices, captureIndex, number, ← List.range'_append_1, Nat.add_assoc]
  | .alt items, next | .concat items, next => by
    simpa [indices, captureIndex, number] using numbers_indices items next
  | .empty, _ | .invalid, _ | .literal _, _ | .dot, _ | .cls _ _, _ | .backref _, _ | .anchor _, _
  | .boundary _, _ | .comment _, _ | .options _, _ | .verb _, _ => ⟨rfl, rfl⟩

theorem numbers_indices : (items : List Tree) → (next : Nat) →
    (numbers next items).1.flatMap (gather captureIndex) =
        List.range' next (items.flatMap (gather captureIndex)).length ∧
      (numbers next items).2 = next + (items.flatMap (gather captureIndex)).length
  | [], _ => ⟨rfl, rfl⟩
  | item :: rest, next => by
    have hitem := number_indices item next
    have hrest := numbers_indices rest (next + item.indices.length)
    simp_all [indices, numbers, ← List.range'_append_1, Nat.add_assoc]

end

/-- The groups of a renumbered tree have the numbers from 1 on. -/
theorem indices_renumber (t : Tree) :
    t.renumber.indices = List.range' 1 t.indices.length := by
  unfold renumber
  rw [indices_mapRefs]
  exact (number_indices t 1).1

/-! References. -/

/-- The number of a numeric reference. -/
def number? : GroupRef → Option Nat
  | .number n => some n
  | .name _ => none

/-- The number by which an expression refers to a group. -/
def reference? : Tree → Option Nat
  | backref ref => number? ref
  | groupCond ref _ _ => number? ref
  | _ => none

/-- The number by which the expression at a place refers to a group. -/
def referenceAt? (t : Tree) (place : Nat) : Option Nat := t.preorder[place]?.bind reference?

/-- The number of a capturing group. -/
def groupNumber? (t : Tree) : Option Nat := t.captureInfo?.map (·.1)

/-- The group that a number names: the place of the first capturing group with that number. -/
def groupNamed? (t : Tree) (n : Nat) : Option Nat :=
  (t.preorder.map groupNumber?).idxOf? (some n)

mutual

/-- A tree without regard to the numbers in it: all groups and all numeric references have the
number 0. -/
def unnumbered : Tree → Tree
  | capture _ name c => capture 0 name (unnumbered c)
  | group c => group (unnumbered c)
  | scope o c => scope o (unnumbered c)
  | backref r => backref (renameRef (fun _ => 0) r)
  | repetition q c => repetition q (unnumbered c)
  | look k c => look k (unnumbered c)
  | atomic c => atomic (unnumbered c)
  | groupCond r y none => groupCond (renameRef (fun _ => 0) r) (unnumbered y) none
  | groupCond r y (some n) =>
    groupCond (renameRef (fun _ => 0) r) (unnumbered y) (some (unnumbered n))
  | lookCond k t y none => lookCond k (unnumbered t) (unnumbered y) none
  | lookCond k t y (some n) => lookCond k (unnumbered t) (unnumbered y) (some (unnumbered n))
  | alt items => alt (unnumberedAll items)
  | concat items => concat (unnumberedAll items)
  | leaf => leaf

/-- Some trees without regard to the numbers in them. -/
def unnumberedAll : List Tree → List Tree
  | [] => []
  | item :: rest => unnumbered item :: unnumberedAll rest

end

/-- A tree whose groups were numbered anew, beside the tree before. -/
structure Renumbers (old new : Tree) : Prop where
  /-- Nothing but numbers has changed. -/
  alike : new.unnumbered = old.unnumbered
  /-- The groups are numbered from 1 in the order in which they open. -/
  numbered : new.captures.map (·.1) = List.range' 1 old.captures.length
  /-- Each group has kept its name. -/
  named : new.groupNames = old.groupNames
  /-- A reference to a group names that group. -/
  follows : ∀ {place n group : Nat}, old.referenceAt? place = some n →
    old.groupNamed? n = some group →
      ∃ m, new.referenceAt? place = some m ∧ new.groupNamed? m = some group
  /-- A reference to no group has kept its number. -/
  keeps : ∀ {place n : Nat}, old.referenceAt? place = some n → old.groupNamed? n = none →
    new.referenceAt? place = some n

/-! Laws of the two passes. -/

mutual

theorem mapRefs_id : (t : Tree) → mapRefs id t = t
  | .capture _ _ c | .group c | .scope _ c | .repetition _ c | .look _ c | .atomic c => by
    simp [mapRefs, mapRefs_id c]
  | .backref r => by cases r <;> rfl
  | .groupCond r y none => by cases r <;> simp [mapRefs, renameRef, mapRefs_id y]
  | .groupCond r y (some n) => by cases r <;> simp [mapRefs, renameRef, mapRefs_id y, mapRefs_id n]
  | .lookCond _ t y none => by simp [mapRefs, mapRefs_id t, mapRefs_id y]
  | .lookCond _ t y (some n) => by simp [mapRefs, mapRefs_id t, mapRefs_id y, mapRefs_id n]
  | .alt items | .concat items => by simp [mapRefs, mapRefsAll_id items]
  | .empty | .invalid | .literal _ | .dot | .cls _ _ | .anchor _ | .boundary _ | .comment _
  | .options _ | .verb _ => rfl

theorem mapRefsAll_id : (items : List Tree) → mapRefsAll id items = items
  | [] => rfl
  | item :: rest => by simp [mapRefsAll, mapRefs_id item, mapRefsAll_id rest]

end

mutual

theorem unnumbered_mapRefs (f : Nat → Nat) : (t : Tree) → (mapRefs f t).unnumbered = t.unnumbered
  | .capture _ _ c | .group c | .scope _ c | .repetition _ c | .look _ c | .atomic c => by
    simp [mapRefs, unnumbered, unnumbered_mapRefs f c]
  | .backref r => by cases r <;> rfl
  | .groupCond r y none => by
    cases r <;> simp [mapRefs, unnumbered, renameRef, unnumbered_mapRefs f y]
  | .groupCond r y (some n) => by
    cases r <;>
      simp [mapRefs, unnumbered, renameRef, unnumbered_mapRefs f y, unnumbered_mapRefs f n]
  | .lookCond _ t y none => by
    simp [mapRefs, unnumbered, unnumbered_mapRefs f t, unnumbered_mapRefs f y]
  | .lookCond _ t y (some n) => by
    simp [mapRefs, unnumbered, unnumbered_mapRefs f t, unnumbered_mapRefs f y,
      unnumbered_mapRefs f n]
  | .alt items | .concat items => by
    simp [mapRefs, unnumbered, unnumberedAll_mapRefsAll f items]
  | .empty | .invalid | .literal _ | .dot | .cls _ _ | .anchor _ | .boundary _ | .comment _
  | .options _ | .verb _ => rfl

theorem unnumberedAll_mapRefsAll (f : Nat → Nat) :
    (items : List Tree) → unnumberedAll (mapRefsAll f items) = unnumberedAll items
  | [] => rfl
  | item :: rest => by
    simp [mapRefsAll, unnumberedAll, unnumbered_mapRefs f item, unnumberedAll_mapRefsAll f rest]

end

mutual

theorem unnumbered_number : (t : Tree) → (next : Nat) →
    (number next t).1.unnumbered = t.unnumbered
  | .capture _ _ c, next | .group c, next | .scope _ c, next | .repetition _ c, next
  | .look _ c, next | .atomic c, next => by simp [number, unnumbered, unnumbered_number c]
  | .groupCond _ y none, next => by simp [number, unnumbered, unnumbered_number y]
  | .groupCond _ y (some n), next => by
    simp [number, unnumbered, unnumbered_number y, unnumbered_number n]
  | .lookCond _ t y none, next => by
    simp [number, unnumbered, unnumbered_number t, unnumbered_number y]
  | .lookCond _ t y (some n), next => by
    simp [number, unnumbered, unnumbered_number t, unnumbered_number y, unnumbered_number n]
  | .alt items, next | .concat items, next => by
    simp [number, unnumbered, unnumberedAll_numbers items]
  | .empty, _ | .invalid, _ | .literal _, _ | .dot, _ | .cls _ _, _ | .backref _, _ | .anchor _, _
  | .boundary _, _ | .comment _, _ | .options _, _ | .verb _, _ => rfl

theorem unnumberedAll_numbers : (items : List Tree) → (next : Nat) →
    unnumberedAll (numbers next items).1 = unnumberedAll items
  | [], _ => rfl
  | item :: rest, next => by
    simp [numbers, unnumberedAll, unnumbered_number item, unnumberedAll_numbers rest]

end

mutual

/-- It does not matter whether groups or references are changed first. -/
theorem number_mapRefs (f : Nat → Nat) : (t : Tree) → (next : Nat) →
    number next (mapRefs f t) = (mapRefs f (number next t).1, (number next t).2)
  | .capture _ _ c, next | .group c, next | .scope _ c, next | .repetition _ c, next
  | .look _ c, next | .atomic c, next => by simp [mapRefs, number, number_mapRefs f c]
  | .groupCond _ y none, next => by simp [mapRefs, number, number_mapRefs f y]
  | .groupCond _ y (some n), next => by
    simp [mapRefs, number, number_mapRefs f y, number_mapRefs f n]
  | .lookCond _ t y none, next => by
    simp [mapRefs, number, number_mapRefs f t, number_mapRefs f y]
  | .lookCond _ t y (some n), next => by
    simp [mapRefs, number, number_mapRefs f t, number_mapRefs f y, number_mapRefs f n]
  | .alt items, next | .concat items, next => by simp [mapRefs, number, numbers_mapRefsAll f items]
  | .empty, _ | .invalid, _ | .literal _, _ | .dot, _ | .cls _ _, _ | .backref _, _ | .anchor _, _
  | .boundary _, _ | .comment _, _ | .options _, _ | .verb _, _ => rfl

theorem numbers_mapRefsAll (f : Nat → Nat) : (items : List Tree) → (next : Nat) →
    numbers next (mapRefsAll f items) =
      (mapRefsAll f (numbers next items).1, (numbers next items).2)
  | [], _ => rfl
  | item :: rest, next => by
    simp [mapRefsAll, numbers, number_mapRefs f item, numbers_mapRefsAll f rest]

end

mutual

/-- Numbering again from the same number changes nothing. -/
theorem number_number : (t : Tree) → (next : Nat) →
    number next (number next t).1 = number next t
  | .capture _ _ c, next | .group c, next | .scope _ c, next | .repetition _ c, next
  | .look _ c, next | .atomic c, next => by simp [number, number_number c]
  | .groupCond _ y none, next => by simp [number, number_number y]
  | .groupCond _ y (some n), next => by simp [number, number_number y, number_number n]
  | .lookCond _ t y none, next => by simp [number, number_number t, number_number y]
  | .lookCond _ t y (some n), next => by
    simp [number, number_number t, number_number y, number_number n]
  | .alt items, next | .concat items, next => by simp [number, numbers_numbers items]
  | .empty, _ | .invalid, _ | .literal _, _ | .dot, _ | .cls _ _, _ | .backref _, _ | .anchor _, _
  | .boundary _, _ | .comment _, _ | .options _, _ | .verb _, _ => rfl

theorem numbers_numbers : (items : List Tree) → (next : Nat) →
    numbers next (numbers next items).1 = numbers next items
  | [], _ => rfl
  | item :: rest, next => by simp [numbers, number_number item, numbers_numbers rest]

end

mutual

/-- Expressions keep their places when references are changed. -/
theorem preorder_mapRefs (f : Nat → Nat) :
    (t : Tree) → (mapRefs f t).preorder = t.preorder.map (mapRefs f)
  | .capture _ _ c | .group c | .scope _ c | .repetition _ c | .look _ c | .atomic c => by
    simp [mapRefs, preorder, preorder_mapRefs f c]
  | .groupCond _ y none => by simp [mapRefs, preorder, preorder_mapRefs f y]
  | .groupCond _ y (some n) => by
    simp [mapRefs, preorder, preorder_mapRefs f y, preorder_mapRefs f n]
  | .lookCond _ t y none => by
    simp [mapRefs, preorder, preorder_mapRefs f t, preorder_mapRefs f y]
  | .lookCond _ t y (some n) => by
    simp [mapRefs, preorder, preorder_mapRefs f t, preorder_mapRefs f y, preorder_mapRefs f n]
  | .alt items | .concat items => by simp [mapRefs, preorder, preorders_mapRefsAll f items]
  | .empty | .invalid | .literal _ | .dot | .cls _ _ | .backref _ | .anchor _ | .boundary _
  | .comment _ | .options _ | .verb _ => rfl

theorem preorders_mapRefsAll (f : Nat → Nat) :
    (items : List Tree) → preorders (mapRefsAll f items) = (preorders items).map (mapRefs f)
  | [] => rfl
  | item :: rest => by
    simp [mapRefsAll, preorders, preorder_mapRefs f item, preorders_mapRefsAll f rest]

end

mutual

/-- What numbering leaves alone in every expression is seen at the same places before and after. -/
theorem map_preorder_number {α : Type} {view : Tree → α}
    (hview : ∀ t next, view (number next t).1 = view t) : (t : Tree) → (next : Nat) →
      (number next t).1.preorder.map view = t.preorder.map view
  | .capture i n c, next => by
    simpa [number, preorder, map_preorder_number hview c] using hview (.capture i n c) next
  | .group c, next => by
    simpa [number, preorder, map_preorder_number hview c] using hview (.group c) next
  | .scope o c, next => by
    simpa [number, preorder, map_preorder_number hview c] using hview (.scope o c) next
  | .repetition q c, next => by
    simpa [number, preorder, map_preorder_number hview c] using hview (.repetition q c) next
  | .look k c, next => by
    simpa [number, preorder, map_preorder_number hview c] using hview (.look k c) next
  | .atomic c, next => by
    simpa [number, preorder, map_preorder_number hview c] using hview (.atomic c) next
  | .groupCond r y none, next => by
    simpa [number, preorder, map_preorder_number hview y] using hview (.groupCond r y none) next
  | .groupCond r y (some n), next => by
    simpa [number, preorder, map_preorder_number hview y, map_preorder_number hview n] using
      hview (.groupCond r y (some n)) next
  | .lookCond k t y none, next => by
    simpa [number, preorder, map_preorder_number hview t, map_preorder_number hview y] using
      hview (.lookCond k t y none) next
  | .lookCond k t y (some n), next => by
    simpa [number, preorder, map_preorder_number hview t, map_preorder_number hview y,
      map_preorder_number hview n] using hview (.lookCond k t y (some n)) next
  | .alt items, next => by
    simpa [number, preorder, map_preorders_numbers hview items] using hview (.alt items) next
  | .concat items, next => by
    simpa [number, preorder, map_preorders_numbers hview items] using hview (.concat items) next
  | .empty, _ | .invalid, _ | .literal _, _ | .dot, _ | .cls _ _, _ | .backref _, _ | .anchor _, _
  | .boundary _, _ | .comment _, _ | .options _, _ | .verb _, _ => rfl

theorem map_preorders_numbers {α : Type} {view : Tree → α}
    (hview : ∀ t next, view (number next t).1 = view t) : (items : List Tree) → (next : Nat) →
      (preorders (numbers next items).1).map view = (preorders items).map view
  | [], _ => rfl
  | item :: rest, next => by
    simp [numbers, preorders, map_preorder_number hview item, map_preorders_numbers hview rest]

end

/-! What the passes leave alone in one expression. -/

theorem reference?_number (t : Tree) (next : Nat) :
    reference? (number next t).1 = reference? t := by
  fun_cases number next t <;> rfl

theorem number?_renameRef (f : Nat → Nat) (r : GroupRef) :
    number? (renameRef f r) = (number? r).map f := by
  cases r <;> rfl

theorem reference?_mapRefs (f : Nat → Nat) (t : Tree) :
    reference? (mapRefs f t) = (reference? t).map f := by
  cases t with
  | backref r => exact number?_renameRef f r
  | groupCond r _ no => cases no <;> exact number?_renameRef f r
  | lookCond _ _ _ no => cases no <;> rfl
  | _ => rfl

theorem captureInfo?_mapRefs (f : Nat → Nat) (t : Tree) :
    captureInfo? (mapRefs f t) = captureInfo? t := by
  fun_cases mapRefs f t <;> rfl

theorem isSome_groupNumber?_number (t : Tree) (next : Nat) :
    (groupNumber? (number next t).1).isSome = (groupNumber? t).isSome := by
  fun_cases number next t <;> rfl

theorem captureName_number (t : Tree) (next : Nat) :
    (captureInfo? (number next t).1).map (·.2) = (captureInfo? t).map (·.2) := by
  fun_cases number next t <;> rfl

/-! A renumbered tree beside the tree before, place by place. -/

/-- What both passes leave alone in every expression is seen at the same places after renumbering. -/
theorem map_preorder_renumber {α : Type} {view : Tree → α}
    (hnumber : ∀ t next, view (number next t).1 = view t)
    (hrefs : ∀ f t, view (mapRefs f t) = view t) (t : Tree) :
    t.renumber.preorder.map view = t.preorder.map view := by
  rw [renumber, preorder_mapRefs, List.map_map, ← map_preorder_number hnumber t 1]
  exact List.map_congr_left fun node _ => hrefs _ node

theorem map_reference?_renumber (t : Tree) :
    t.renumber.preorder.map reference? =
      t.preorder.map fun node => (reference? node).map (renumbered (t.captures.map (·.1))) := by
  rw [renumber, preorder_mapRefs, List.map_map,
    ← map_preorder_number (fun node next => by rw [reference?_number]) t 1]
  exact List.map_congr_left fun node _ => reference?_mapRefs _ node

theorem referenceAt?_eq (t : Tree) (place : Nat) :
    t.referenceAt? place = (t.preorder.map reference?)[place]?.join := by
  rw [referenceAt?, List.getElem?_map]
  cases t.preorder[place]? <;> rfl

theorem referenceAt?_renumber (t : Tree) (place : Nat) :
    t.renumber.referenceAt? place =
      (t.referenceAt? place).map (renumbered (t.captures.map (·.1))) := by
  rw [referenceAt?_eq, map_reference?_renumber, List.getElem?_map, referenceAt?]
  cases t.preorder[place]? <;> rfl

/-- What is listed of the groups is what every expression shows of itself, in order. -/
theorem map_captures {α : Type} (view : Nat × Option String → α) (t : Tree) :
    t.captures.map view = (t.preorder.map fun node => node.captureInfo?.map view).filterMap id := by
  rw [captures, List.map_filterMap, List.filterMap_map]
  rfl

theorem groupNames_renumber (t : Tree) : t.renumber.groupNames = t.groupNames := by
  rw [groupNames, groupNames, map_captures, map_captures, map_preorder_renumber]
  · exact captureName_number
  · exact fun f node => by rw [captureInfo?_mapRefs]

theorem map_fst_captures (t : Tree) :
    t.captures.map (·.1) = (t.preorder.map groupNumber?).filterMap id :=
  map_captures (·.1) t

theorem indices_eq (t : Tree) : t.indices = t.captures.map (·.1) := by
  have single : captureIndex = fun node => ((captureInfo? node).map (·.1)).toList := by
    funext node
    cases node <;> rfl
  rw [indices, gather, captures, single, List.map_filterMap, List.filterMap_eq_flatMap_toList]

theorem map_fst_captures_renumber (t : Tree) :
    t.renumber.captures.map (·.1) = List.range' 1 t.captures.length := by
  rw [← indices_eq, indices_renumber, indices_eq, List.length_map]

/-- Groups that are numbered in order open at the places where groups with other numbers opened. So
the first group with a number in one list is at the place of the group with its rank in the other. -/
theorem idxOf?_aligned {old new : List (Option Nat)} {first n i : Nat}
    (haligned : new.map Option.isSome = old.map Option.isSome)
    (hnumbers : new.filterMap id = List.range' first (old.filterMap id).length)
    (hrank : (old.filterMap id).idxOf? n = some i) :
    new.idxOf? (some (first + i)) = old.idxOf? (some n) := by
  induction old generalizing new first i with
  | nil => cases hrank
  | cons head old ih =>
    cases new with
    | nil => cases haligned
    | cons head' new =>
      obtain ⟨hhead, htail⟩ := List.cons.inj haligned
      match head, head' with
      | none, none =>
        have hrest := ih htail hnumbers hrank
        simp [List.idxOf?_cons, hrest]
      | some old₀, some new₀ =>
        simp only [List.filterMap_cons, id_eq, List.length_cons, List.range'_succ] at hnumbers hrank
        obtain ⟨rfl, hnumbers⟩ := List.cons.inj hnumbers
        rw [List.idxOf?_cons] at hrank
        by_cases hn : old₀ = n
        · subst hn
          obtain rfl : 0 = i := by simpa using hrank
          simp [List.idxOf?_cons]
        · simp only [beq_iff_eq, hn, if_false, Option.map_eq_some_iff] at hrank
          obtain ⟨j, hj, rfl⟩ := hrank
          have hrest := ih htail hnumbers hj
          have hlater : new₀ ≠ new₀ + (j + 1) := by omega
          rw [show new₀ + 1 + j = new₀ + (j + 1) by omega] at hrest
          simp [List.idxOf?_cons, hn, hrest]

theorem idxOf?_filterMap_eq_none {old : List (Option Nat)} {n : Nat} :
    (old.filterMap id).idxOf? n = none ↔ old.idxOf? (some n) = none := by
  simp [List.idxOf?_eq_none_iff]

theorem renumbered_range' (count : Nat) : renumbered (List.range' 1 count) = id := by
  funext n
  unfold renumbered
  split
  · rename_i i hi
    obtain ⟨hlt, hn, _⟩ := List.idxOf?_eq_some_iff.mp hi
    rw [List.getElem_range', Nat.one_mul, Nat.add_comm] at hn
    exact hn
  · rfl

/-- Renumbering a second time changes nothing. -/
theorem renumber_renumber (t : Tree) : t.renumber.renumber = t.renumber := by
  have hnumbered : (number 1 t.renumber).1 = t.renumber := by
    rw [renumber, number_mapRefs, number_number]
  calc t.renumber.renumber
      = mapRefs (renumbered (t.renumber.captures.map (·.1))) t.renumber := by
        rw [renumber.eq_1 t.renumber, hnumbered]
    _ = t.renumber := by rw [map_fst_captures_renumber, renumbered_range', mapRefs_id]

theorem unnumbered_renumber (t : Tree) : t.renumber.unnumbered = t.unnumbered := by
  rw [renumber, unnumbered_mapRefs, unnumbered_number]

/-- Every tree is renumbered as it should be. -/
theorem renumbers_renumber (t : Tree) : Renumbers t t.renumber where
  alike := unnumbered_renumber t
  numbered := map_fst_captures_renumber t
  named := groupNames_renumber t
  follows := by
    intro place n group hplace hgroup
    have hrank : ∃ i, (t.captures.map (·.1)).idxOf? n = some i := by
      rw [map_fst_captures, ← Option.ne_none_iff_exists', Ne, idxOf?_filterMap_eq_none]
      exact fun hnone => by cases hgroup.symm.trans hnone
    obtain ⟨i, hi⟩ := hrank
    refine ⟨i + 1, ?_, ?_⟩
    · rw [referenceAt?_renumber, hplace, Option.map_some, renumbered, hi]
    · rw [groupNamed?, Nat.add_comm, ← hgroup, groupNamed?]
      refine idxOf?_aligned ?_ ?_ (map_fst_captures t ▸ hi)
      · rw [List.map_map, List.map_map]
        refine map_preorder_renumber isSome_groupNumber?_number ?_ t
        exact fun f node => by rw [Function.comp_apply, groupNumber?, captureInfo?_mapRefs]; rfl
      · rw [← map_fst_captures, ← map_fst_captures, map_fst_captures_renumber,
          List.length_map]
  keeps := by
    intro place n hplace hgroup
    have hrank : (t.captures.map (·.1)).idxOf? n = none := by
      rwa [map_fst_captures, idxOf?_filterMap_eq_none]
    rw [referenceAt?_renumber, hplace, Option.map_some, renumbered, hrank]

end Tree

namespace Parser

theorem returns_pattern_numbered (flags : Flags) (fuel : Nat) :
    Returns (pattern flags fuel) fun tree =>
      ∃ count, tree.root.indices = List.range' 1 count := by
  refine returns_bind_any fun opening => returns_bind_any fun first => ?_
  refine returns_bind_any fun read => returns_bind_any fun _ => returns_pure ?_
  exact ⟨_, Tree.indices_renumber read.1⟩

end Parser

/-- The groups of a tree that was read have the numbers from 1 on. -/
theorem SyntaxTree.indices_parse {source : List Char} {flags : Flags} {maxDepth : Nat}
    {tree : SyntaxTree} (h : parse source flags maxDepth = .ok tree) :
    ∃ count, tree.root.indices = List.range' 1 count := by
  obtain ⟨fuel, p, p', hrun⟩ := exists_run_of_parse h
  exact Parser.returns_pattern_numbered flags fuel p tree p' hrun

/-- In a tree that is made by hand, whatever the numbers in it are, the groups are numbered from 1 in
the order in which they open, and their names are listed in that order. Every reference to a group
goes on naming that group, and a reference to no group keeps its number. Renumbering the tree again
changes nothing. -/
theorem SyntaxTree.ofTree_renumbers (root : Tree) (flags : Flags) :
    Tree.Renumbers root (ofTree root flags).root ∧
      (ofTree root flags).groups = root.groupNames ∧
        (ofTree root flags).root.renumber = (ofTree root flags).root :=
  ⟨root.renumbers_renumber, root.groupNames_renumber, root.renumber_renumber⟩

/-- A reference that keeps its number may come to name a group: in a tree with one group, numbered 7,
a reference to group 1 names none before and that one afterwards. -/
theorem SyntaxTree.dangling_reference_gains_group :
    let root := Tree.concat [.capture 7 none (.literal 'a'), .backref (.number 1)]
    let tree := ofTree root .empty
    root.referenceAt? 3 = some 1 ∧ root.groupNamed? 1 = none ∧
      tree.root.referenceAt? 3 = some 1 ∧ tree.root.groupNamed? 1 = some 1 := by
  decide

end RegexEngine
