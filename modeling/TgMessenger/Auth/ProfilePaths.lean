import TgMessenger.Core.Names
import TgMessenger.Core.Paths
import Mathlib.Data.Set.Function

/-!
# The file of a profile

`SessionStore.path_for` (`core/auth.py`): a file for every profile, in the session directory.
-/

namespace TgMessenger

/-- `path_for`. -/
def pathFor (sessionDir : Path) (name : String) : Path :=
  sessionDir.join (sanitizeProfileName name ++ ".session")

/-- A text with no slash in it is the name of an entry. -/
theorem Path.join_of_notMem {p : Path} {text : String} (hslash : '/' ∉ text.toList)
    (hempty : text ≠ "") (hdot : text ≠ ".") : p.join text = p.child text := by
  have hstart : ∀ start, '/' ∈ start.toList → startsWith start text = false := by
    intro start hmem
    rw [Bool.eq_false_iff, Ne, startsWith_iff]
    intro hpre
    exact hslash (hpre.subset hmem)
  have hroot : (Path.ofString text).root = "" := by
    simp only [Path.ofString, hstart "//" (by decide), hstart "/" (by decide)]
    rfl
  have hsplit : text.toList.splitOn '/' = [text.toList] := by
    apply List.splitOnP_eq_singleton
    intro c hc
    rw [beq_eq_false_iff_ne]
    rintro rfl
    exact hslash hc
  have hparts : (Path.ofString text).parts = [text] := by
    have hne : text.toList ≠ [] := fun h ↦ hempty (String.toList_inj.mp h)
    have hne' : text.toList ≠ ['.'] := fun h ↦ hdot (String.toList_inj.mp h)
    simp [Path.ofString, hsplit, hne, hne']
  rw [Path.join, if_pos hroot, hparts]
  rfl

theorem isSafeChar_of_mem_session {c : Char} (h : c ∈ ".session".toList) : isSafeChar c = true :=
  List.all_eq_true.mp (by decide : ".session".toList.all isSafeChar = true) c h

/-- The name of a file is made of the characters that are kept. -/
theorem isSafeChar_of_mem_fileName {name : String} {c : Char}
    (h : c ∈ (sanitizeProfileName name ++ ".session").toList) : isSafeChar c = true := by
  rw [String.toList_append, List.mem_append] at h
  rcases h with h | h
  · exact isSafeChar_of_mem_sanitizeProfileName h
  · exact isSafeChar_of_mem_session h

theorem length_fileName (name : String) :
    8 ≤ (sanitizeProfileName name ++ ".session").toList.length := by
  rw [String.toList_append, List.length_append]
  exact Nat.le_add_left 8 _

theorem fileName_ne_of_length {name text : String} (h : text.toList.length < 8) :
    sanitizeProfileName name ++ ".session" ≠ text := by
  rintro rfl
  exact absurd (length_fileName name) (by omega)

theorem pathFor_eq_child (sessionDir : Path) (name : String) :
    pathFor sessionDir name = sessionDir.child (sanitizeProfileName name ++ ".session") := by
  rw [pathFor, Path.join_of_notMem]
  · intro hslash
    exact absurd (isSafeChar_of_mem_fileName hslash) (by decide)
  · exact fileName_ne_of_length (by decide)
  · exact fileName_ne_of_length (by decide)

/-- Two names have one file exactly when they have one canonical form. -/
theorem pathFor_eq_iff {sessionDir : Path} {name name' : String} :
    pathFor sessionDir name = pathFor sessionDir name' ↔
      sanitizeProfileName name = sanitizeProfileName name' := by
  rw [pathFor_eq_child, pathFor_eq_child]
  constructor
  · intro h
    have hparts := List.append_cancel_left (congrArg Path.parts h)
    have hfile := congrArg String.toList (List.cons.inj hparts).1
    rw [String.toList_append, String.toList_append] at hfile
    exact String.toList_inj.mp (List.append_cancel_right hfile)
  · intro h
    rw [h]

/-- The file of every name is an entry of the session directory itself. -/
theorem pathFor_isEntry (sessionDir : Path) (name : String) :
    sessionDir.IsEntry (pathFor sessionDir name) (sanitizeProfileName name ++ ".session") := by
  constructor
  case path => exact pathFor_eq_child sessionDir name
  case slash =>
    intro hslash
    exact absurd (isSafeChar_of_mem_fileName hslash) (by decide)
  case null =>
    intro hnull
    exact absurd (isSafeChar_of_mem_fileName hnull) (by decide)
  case other =>
    exact ⟨fileName_ne_of_length (by decide), fileName_ne_of_length (by decide),
      fileName_ne_of_length (by decide)⟩

/-- What a canonical form of names is. -/
structure CanonicalName (name : String) : Prop where
  ne_empty : name ≠ ""
  chars : ∀ c ∈ name.toList, isSafeChar c = true
  first : ∀ c ∈ name.toList.head?, c ≠ '.' ∧ c ≠ '_'
  last : ∀ c ∈ name.toList.getLast?, c ≠ '.' ∧ c ≠ '_'
  fixed : sanitizeProfileName name = name

/-- Every name has a canonical form, which is that of an entry of the session directory; the safe
names are the canonical ones, and no two of them have one file. -/
theorem profile_files_safe (sessionDir : Path) :
    (∀ name, CanonicalName (sanitizeProfileName name) ∧
      sessionDir.IsEntry (pathFor sessionDir name) (sanitizeProfileName name ++ ".session")) ∧
    (∀ name, isSafeProfileName name = true ↔ sanitizeProfileName name = name) ∧
    Set.InjOn (pathFor sessionDir) {name | isSafeProfileName name = true} := by
  refine ⟨?_, fun name ↦ isSafeProfileName_iff, ?_⟩
  · intro name
    refine ⟨?_, pathFor_isEntry sessionDir name⟩
    constructor
    case ne_empty => exact sanitizeProfileName_ne_empty name
    case chars => exact fun c hc ↦ isSafeChar_of_mem_sanitizeProfileName hc
    case first => exact fun c hc ↦ ne_dot_of_mem_ends_sanitizeProfileName (.inl hc)
    case last => exact fun c hc ↦ ne_dot_of_mem_ends_sanitizeProfileName (.inr hc)
    case fixed => exact sanitizeProfileName_idempotent name
  · intro name hname name' hname' h
    rw [← isSafeProfileName_iff.mp hname, ← isSafeProfileName_iff.mp hname']
    exact pathFor_eq_iff.mp h

end TgMessenger
