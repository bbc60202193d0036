import DurableLists.Proofs.Disk.Reliable

/-!
# Octets that a file takes

`Disk.Takes` says that octets have been handed to the file at a place, in parts of which the file took every one
whole, and that it may have been synced in between. A regular file then stays where it was and ends in these octets
(`Takes.regular`), and the device without room has been handed none (`Takes.eq_nil_of_full`).
-/

set_option autoImplicit false

namespace DurableLists

namespace Disk

variable {place : Location} {start d d' : Disk} {bs cs : Bytes} {taken : Nat}

/-- A file that has no fault to tell has taken all octets. -/
theorem taken_of_append (h : d.append place bs = ((taken, none), d')) : taken = bs.length := by
  rw [append] at h
  split at h
  · split at h <;> cases h
    rfl
  · cases h
  · cases h
    rfl
  · cases h
  · cases h

/-- Whether a disk is what is left when the file at a place has taken octets, all that were handed to it, and no
sync of it has failed. -/
inductive Takes (place : Location) (start : Disk) : Bytes → Disk → Prop where
  | refl : Takes place start [] start
  | append {bs cs : Bytes} {taken : Nat} {d d' : Disk} (before : Takes place start bs d)
      (took : d.append place cs = ((taken, none), d')) : Takes place start (bs ++ cs) d'
  | sync {bs : Bytes} {d d' : Disk} (before : Takes place start bs d) (synced : d.sync place = (none, d')) :
      Takes place start bs d'

namespace Takes

/-- A regular file stays where it is, for every path, and ends in the octets. -/
theorem regular (h : Takes place start bs d) {file : File} (hfile : start.node? place = some (.regular file)) :
    ∃ last : File, d.node? place = some (.regular last) ∧ last.content = file.content ++ bs ∧
      ∀ path, start.locate path = .ok place → d.locate path = .ok place := by
  induction h with
  | refl => exact ⟨file, hfile, (List.append_nil _).symm, fun _ => id⟩
  | @append bs cs _ d _ _ took ih =>
    obtain ⟨last, hlast, hcontent, hlocate⟩ := ih
    have hplace : d.node? place ≠ some .directory := by simp [hlast]
    rw [Disk.append, hlast] at took
    simp only at took
    split at took <;> cases took
    refine ⟨_, node?_put_self .., ?_, fun path hpath => locate_put _ hplace (hlocate path hpath)⟩
    rw [hcontent, List.append_assoc]
  | @sync bs d _ _ synced ih =>
    obtain ⟨last, hlast, hcontent, hlocate⟩ := ih
    have hplace : d.node? place ≠ some .directory := by simp [hlast]
    rw [Disk.sync, hlast] at synced
    rw [← (Prod.mk.inj synced).2]
    exact ⟨_, node?_put_self .., hcontent, fun path hpath => locate_put _ hplace (hlocate path hpath)⟩

theorem content (h : Takes place start bs d) {file : File} (hfile : start.node? place = some (.regular file)) :
    ∃ last : File, d.node? place = some (.regular last) ∧ last.content = file.content ++ bs := by
  obtain ⟨last, hlast, hcontent, -⟩ := h.regular hfile
  exact ⟨last, hlast, hcontent⟩

theorem find (h : Takes place start bs d) {path : String} {file : File}
    (hfile : start.find path = .ok (place, .regular file)) :
    ∃ last : File, d.find path = .ok (place, .regular last) ∧ last.content = file.content ++ bs := by
  obtain ⟨hpath, hnode, hname⟩ := regular_of_find hfile
  obtain ⟨last, hlast, hcontent, hlocate⟩ := h.regular hnode
  exact ⟨last, find_of_regular (hlocate path hpath) hlast hname, hcontent⟩

theorem eq_nil_of_full (h : Takes place start bs d) (hfull : start.node? place = some .full) :
    bs = [] ∧ d.node? place = some .full := by
  induction h with
  | refl => exact ⟨rfl, hfull⟩
  | append _ took ih =>
    rw [Disk.append, ih.2] at took
    cases took
  | sync _ synced ih =>
    rw [Disk.sync, ih.2] at synced
    cases synced

end Takes

end Disk

end DurableLists
