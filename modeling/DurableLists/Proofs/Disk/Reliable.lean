import DurableLists.Proofs.Disk.Contains

/-!
# Files that take every request

`Holds` says what a path leads to a regular file with, every write and sync of which is answered well; each
operation that the log makes on such a file succeeds and keeps `Holds`, with the content that the operation says.
-/

set_option autoImplicit false

namespace DurableLists

def Answers.Reliable (answers : Answers) : Prop := (∀ n, answers.write n = none) ∧ ∀ n, answers.sync n = none

theorem Answers.reliable_reliable : Answers.reliable.Reliable := ⟨fun _ => rfl, fun _ => rfl⟩

def File.Reliable (file : File) : Prop := file.answers.Reliable

theorem File.reliable_create (content : Bytes) : (File.create content).Reliable := Answers.reliable_reliable

namespace Disk

/-- A path leads to a regular file at a place that takes every request and has the given content. -/
def Holds (d : Disk) (path : String) (place : Location) (content : Bytes) : Prop :=
  ∃ file : File, d.find path = .ok (place, .regular file) ∧ file.content = content ∧ file.Reliable

theorem holds_put {d : Disk} {path : String} {place : Location} (file : File)
    (hlocate : d.locate path = .ok place) (hplace : d.node? place ≠ some .directory)
    (hname : namesDirectory path = false) (hfile : file.Reliable) :
    (d.put place (.regular file)).Holds path place file.content :=
  ⟨file, find_of_regular (locate_put _ hplace hlocate) (node?_put_self _ _ _) hname, rfl, hfile⟩

namespace Holds

variable {d : Disk} {path : String} {place : Location} {content : Bytes}

theorem parts (h : d.Holds path place content) : ∃ file : File, d.locate path = .ok place ∧
    d.node? place = some (.regular file) ∧ namesDirectory path = false ∧ file.content = content ∧
    file.Reliable := by
  obtain ⟨file, hfind, hcontent, hfile⟩ := h
  obtain ⟨hlocate, hnode, hname⟩ := regular_of_find hfind
  exact ⟨file, hlocate, hnode, hname, hcontent, hfile⟩

theorem append (h : d.Holds path place content) (bs : Bytes) :
    ∃ d', d.append place bs = ((bs.length, none), d') ∧ d'.Holds path place (content ++ bs) := by
  obtain ⟨file, hlocate, hnode, hname, rfl, hfile⟩ := h.parts
  refine ⟨_, ?_, holds_put ⟨file.content ++ bs, file.answers, file.asked + 1⟩ hlocate
    (by simp [hnode]) hname hfile⟩
  rw [Disk.append, hnode]
  simp only [hfile.1]

theorem sync (h : d.Holds path place content) :
    ∃ d', d.sync place = (none, d') ∧ d'.Holds path place content := by
  obtain ⟨file, hlocate, hnode, hname, rfl, hfile⟩ := h.parts
  refine ⟨_, ?_, holds_put { file with asked := file.asked + 1 } hlocate (by simp [hnode])
    hname hfile⟩
  rw [Disk.sync, hnode]
  simp only [hfile.2]

theorem contains (h : d.Holds path place content) : d.Contains path place content := by
  obtain ⟨file, hfind, hcontent, -⟩ := h
  exact ⟨file, hfind, hcontent⟩

end Holds

/-! ## A log that is there or missing -/

/-- Opening a log at a path meets the given content in a file that takes every request, or that does so when it is
created. -/
def Offers (d : Disk) (path : String) (content : Bytes) : Prop :=
  (∃ place, d.Holds path place content) ∨
    (content = [] ∧ d.find path = .error .notFound ∧
      (d.createParents path).2.find path = .error .notFound ∧ d.created.Reliable)

end Disk

end DurableLists
