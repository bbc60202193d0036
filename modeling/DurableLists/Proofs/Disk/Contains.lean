import DurableLists.Disk

/-!
# Files and what they take

What a path leads to stays there while only regular files are written (`walk_put`), so a log file is
found at one place from its opening on. `Contains` says what a path leads to a regular file with, however
that file answers: of octets that are handed to it, it takes a front (`Contains.append`), and a sync leaves
its content. A file that was missing is empty when it has been opened (`find_of_openAppend`).
-/

set_option autoImplicit false

namespace DurableLists

namespace Disk

/-! ## Places that stay -/

@[simp] theorem node?_put_self (d : Disk) (place : Location) (node : Node) :
    (d.put place node).node? place = some node :=
  Std.ExtTreeMap.getElem?_insert_self

theorem node?_put_of_ne (d : Disk) {place other : Location} (node : Node) (h : place ≠ other) :
    (d.put place node).node? other = d.node? other :=
  Std.ExtTreeMap.getElem?_insert.trans (if_neg (by simpa using h))

/-- A walk passes directories only, so it goes on as before when something else is replaced. -/
theorem walk_put {d : Disk} {place : Location} (node : Node) (hplace : d.node? place ≠ some .directory)
    {origin target : Location} {parts : List String} (h : d.walk origin parts = .ok target) :
    (d.put place node).walk origin parts = .ok target := by
  induction parts generalizing origin with
  | nil => exact h
  | cons part parts ih =>
    rw [walk] at h ⊢
    cases horigin : d.node? origin with
    | none => simp [horigin] at h
    | some found =>
      rw [horigin] at h
      cases found with
      | directory =>
        have hne : place ≠ origin := by
          rintro rfl
          exact hplace horigin
        rw [node?_put_of_ne d node hne, horigin]
        exact ih h
      | regular file => cases h
      | null => cases h
      | full => cases h

theorem locate_put {d : Disk} {place : Location} (node : Node) (hplace : d.node? place ≠ some .directory)
    {path : String} {target : Location} (h : d.locate path = .ok target) :
    (d.put place node).locate path = .ok target := by
  rw [locate] at h ⊢
  split at h
  · cases h
  · rename_i hpath
    rw [if_neg hpath]
    exact walk_put node hplace h

theorem find_of_regular {d : Disk} {path : String} {place : Location} {file : File}
    (hlocate : d.locate path = .ok place) (hnode : d.node? place = some (.regular file))
    (hname : namesDirectory path = false) : d.find path = .ok (place, .regular file) := by
  simp only [find, hlocate, hnode, hname, bind, Except.bind, pure, Except.pure, Bool.false_eq_true,
    if_false]

theorem regular_of_find {d : Disk} {path : String} {place : Location} {file : File}
    (h : d.find path = .ok (place, .regular file)) : d.locate path = .ok place ∧
      d.node? place = some (.regular file) ∧ namesDirectory path = false := by
  simp only [find, bind, Except.bind, pure, Except.pure, throw, throwThe, MonadExceptOf.throw] at h
  split at h
  · cases h
  · rename_i found hlocate
    split at h
    · cases h
    · cases h
    · rename_i node _ hnode
      split at h
      · cases h
      · rename_i hname
        cases h
        exact ⟨hlocate, hnode, by simpa using hname⟩

theorem find_put {d : Disk} {path : String} {place : Location} {file : File}
    (h : d.find path = .ok (place, .regular file)) (other : File) :
    (d.put place (.regular other)).find path = .ok (place, .regular other) := by
  obtain ⟨hlocate, hnode, hname⟩ := regular_of_find h
  have hplace : d.node? place ≠ some .directory := by
    rw [hnode]
    exact nofun
  exact find_of_regular (locate_put _ hplace hlocate) (node?_put_self _ _ _) hname

/-! ## Files that may fail -/

/-- A path leads to a regular file at a place that has the given content, however it answers. -/
def Contains (d : Disk) (path : String) (place : Location) (content : Bytes) : Prop :=
  ∃ file : File, d.find path = .ok (place, .regular file) ∧ file.content = content

namespace Contains

variable {d : Disk} {path : String} {place : Location} {content : Bytes}

/-- Of octets that are handed to it the file takes a front, and all of them if it has no fault to tell. -/
theorem append (h : d.Contains path place content) (bs : Bytes) :
    ∃ taken fault d', d.append place bs = ((taken, fault), d') ∧
      d'.Contains path place (content ++ bs.take taken) ∧ (fault = none → taken = bs.length) := by
  obtain ⟨file, hfind, rfl⟩ := h
  obtain ⟨-, hnode, -⟩ := regular_of_find hfind
  rw [Disk.append, hnode]
  simp only
  split
  · refine ⟨_, _, _, rfl, ⟨_, find_put hfind _, ?_⟩, fun _ => rfl⟩
    rw [List.take_length]
  · refine ⟨_, _, _, rfl, ⟨_, find_put hfind _, ?_⟩, nofun⟩
    rw [List.take_eq_take_min]

theorem sync (h : d.Contains path place content) :
    ∃ fault d', d.sync place = (fault, d') ∧ d'.Contains path place content := by
  obtain ⟨file, hfind, rfl⟩ := h
  obtain ⟨-, hnode, -⟩ := regular_of_find hfind
  rw [Disk.sync, hnode]
  exact ⟨_, _, rfl, _, find_put hfind _, rfl⟩

theorem openAppend (h : d.Contains path place content) : d.openAppend path = .ok (place, d) := by
  obtain ⟨file, hfind, -⟩ := h
  obtain ⟨hlocate, hnode, hname⟩ := regular_of_find hfind
  simp only [Disk.openAppend, hlocate, hname, hnode, bind, Except.bind, pure, Except.pure,
    Bool.false_eq_true, if_false]

end Contains

/-! ## Directories above a file -/

theorem walk_filter {d : Disk} {origin target : Location} {parts : List String}
    (h : d.walk origin parts = .ok target) :
    d.walk origin (parts.filter (· ≠ ".")) = .ok target := by
  induction parts generalizing origin with
  | nil => exact h
  | cons part parts ih =>
    rw [walk] at h
    cases horigin : d.node? origin with
    | none => simp [horigin] at h
    | some found =>
      rw [horigin] at h
      cases found with
      | directory =>
        by_cases hpart : part = "."
        · rw [List.filter_cons_of_neg (by simp [hpart])]
          refine ih ?_
          rwa [follow, if_pos hpart] at h
        · rw [List.filter_cons_of_pos (by simp [hpart]), walk, horigin]
          exact ih h
      | regular file => cases h
      | null => cases h
      | full => cases h

theorem isDirectory_of_walk_concat {d : Disk} {origin target : Location} {parts : List String}
    {last : String} (h : d.walk origin (parts ++ [last]) = .ok target) :
    ∃ above, d.walk origin parts = .ok above ∧ d.node? above = some .directory := by
  induction parts generalizing origin with
  | nil =>
    refine ⟨origin, rfl, ?_⟩
    rw [List.nil_append, walk] at h
    cases horigin : d.node? origin with
    | none => simp [horigin] at h
    | some found =>
      rw [horigin] at h
      cases found with
      | directory => rfl
      | regular file => cases h
      | null => cases h
      | full => cases h
  | cons part parts ih =>
    rw [List.cons_append, walk] at h
    rw [walk]
    cases horigin : d.node? origin with
    | none => simp [horigin] at h
    | some found =>
      rw [horigin] at h
      cases found with
      | directory => exact ih h
      | regular file => cases h
      | null => cases h
      | full => cases h

theorem createDirectories_of_walk {d : Disk} {origin target : Location} {parts : List String}
    (h : d.walk origin parts = .ok target) :
    d.createDirectories origin parts.dropLast.reverse = (none, d) := by
  rcases List.eq_nil_or_concat parts with rfl | ⟨above, last, hparts⟩
  · rfl
  · rw [List.concat_eq_append] at hparts
    rw [hparts] at h ⊢
    rw [List.dropLast_concat]
    obtain ⟨place, hwalk, hnode⟩ := isDirectory_of_walk_concat h
    cases hreverse : above.reverse with
    | nil => rfl
    | cons part outer =>
      have hpath : (part :: outer).reverse = above := by rw [← hreverse, List.reverse_reverse]
      have hexists : d.createDirectory origin above = .error .alreadyExists := by
        simp only [createDirectory, hwalk, hnode, bind, Except.bind]
        rfl
      have hdirectory : d.isDirectory origin above = true := by
        simp only [isDirectory, hwalk, hnode]
      simp only [createDirectories, hpath, hexists, hdirectory, if_true]

theorem createParents_of_locate {d : Disk} {path : String} {place : Location}
    (h : d.locate path = .ok place) : d.createParents path = (none, d) := by
  rw [locate] at h
  split at h
  · cases h
  · exact createDirectories_of_walk (walk_filter h)

theorem Contains.createParents {d : Disk} {path : String} {place : Location} {content : Bytes}
    (h : d.Contains path place content) : d.createParents path = (none, d) := by
  obtain ⟨file, hfind, -⟩ := h
  exact createParents_of_locate (regular_of_find hfind).1

/-! ## Files that are created -/

theorem created_createDirectory {d d' : Disk} {origin : Location} {parts : List String}
    (h : d.createDirectory origin parts = .ok d') : d'.created = d.created := by
  simp only [createDirectory, bind, Except.bind, pure, Except.pure, throw, throwThe, MonadExceptOf.throw] at h
  split at h
  · cases h
  · split at h <;> cases h
    rfl

theorem created_createDirectories (d : Disk) (origin : Location) (parts : List String) :
    (d.createDirectories origin parts).2.created = d.created := by
  induction parts generalizing d with
  | nil => rfl
  | cons part outer ih =>
    have houter := ih d
    rw [createDirectories]
    cases hpath : d.createDirectory origin (part :: outer).reverse with
    | ok d' => exact created_createDirectory hpath
    | error cause =>
      cases cause with
      | notFound =>
        revert houter
        simp only
        rcases d.createDirectories origin outer with ⟨_ | _, d'⟩
        · intro houter
          simp only
          cases hagain : d'.createDirectory origin (part :: outer).reverse with
          | ok d'' => exact (created_createDirectory hagain).trans houter
          | error cause => exact houter
        · exact id
      | _ => rfl

theorem created_createParents (d : Disk) (path : String) : (d.createParents path).2.created = d.created :=
  created_createDirectories _ _ _

/-- A file that was missing is empty when it has been opened, and answers as files do that are created. -/
theorem find_of_openAppend {d d' : Disk} {path : String} {place : Location}
    (hmissing : d.find path = .error .notFound) (h : d.openAppend path = .ok (place, d')) :
    d'.find path = .ok (place, .regular ⟨[], d.created, 0⟩) := by
  simp only [find, openAppend, bind, Except.bind, pure, Except.pure, throw, throwThe,
    MonadExceptOf.throw] at hmissing h
  cases hlocate : d.locate path with
  | error cause =>
    rw [hlocate] at h
    cases h
  | ok found =>
    simp only [hlocate] at hmissing h
    cases hname : namesDirectory path with
    | true => simp [hname] at h
    | false =>
      simp only [hname, Bool.false_eq_true, if_false] at hmissing h
      cases hnode : d.node? found with
      | none =>
        simp only [hnode, Except.ok.injEq, Prod.mk.injEq] at h
        obtain ⟨rfl, rfl⟩ := h
        exact find_of_regular (locate_put _ (by simp [hnode]) hlocate) (node?_put_self _ _ _) hname
      | some node =>
        rw [hnode] at hmissing
        cases node <;> cases hmissing

/-- Opening a log at a path meets the given content: in a regular file, or, the content being empty, in no file.
There is no file only if there is none either once the directories above are there: a path that leads up again
out of a missing directory can name an old file. -/
def Meets (d : Disk) (path : String) (content : Bytes) : Prop :=
  (∃ place, d.Contains path place content) ∨
    (content = [] ∧ d.find path = .error .notFound ∧
      (d.createParents path).2.find path = .error .notFound)

end Disk

end DurableLists
