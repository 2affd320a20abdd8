import Mathlib.Data.List.Induction
import UnixLessons.Text.CString

/-!
# Slash-separated paths as text

Programs that walk directories edit the text of a path and never look at its
components. The components are what the text denotes: a name put behind a slash
is one more component, and runs of slashes count as one separator.

`Denotes` is the shape such an edited path keeps when it starts from an absolute
path: the root, a name below the root (with one slash or two), or a name below
another such path. `Denotes.up` says what cutting the text at its last slash
does to the components, the root included.
-/

namespace UnixLessons.Text

/-- The non-empty parts between the slashes of a path. -/
def components (path : CString) : List CString :=
  (path.splitOn '/').filter (· ≠ [])

/-- What can stand between two slashes. -/
structure IsName (name : CString) : Prop where
  ne_nil : name ≠ []
  no_slash : '/' ∉ name

instance : DecidablePred IsName := fun name =>
  decidable_of_iff (name ≠ [] ∧ '/' ∉ name)
    ⟨fun h => ⟨h.1, h.2⟩, fun h => ⟨h.ne_nil, h.no_slash⟩⟩

@[simp] theorem components_root : components ['/'] = [] := by
  decide

theorem components_append_slash (path rest : CString) :
    components (path ++ '/' :: rest) = components path ++ components rest := by
  simp [components, List.splitOn_append_cons_self]

theorem IsName.components {name : CString} (h : IsName name) :
    Text.components name = [name] := by
  simp [Text.components, List.splitOn_eq_singleton h.no_slash, h.ne_nil]

/-- A name behind a slash is one more component, whatever stands before it. -/
theorem components_append_name {path name : CString} (h : IsName name) :
    components (path ++ '/' :: name) = components path ++ [name] := by
  rw [components_append_slash, h.components]

/-- The text of an absolute path and the names it denotes. -/
inductive Denotes : CString → List CString → Prop
  | root : Denotes ['/'] []
  | top {name : CString} (hname : IsName name) : Denotes ('/' :: name) [name]
  | child {path name : CString} {names : List CString} (hpath : Denotes path names)
      (hname : IsName name) : Denotes (path ++ '/' :: name) (names ++ [name])

namespace Denotes

variable {path : CString} {names : List CString}

theorem components_eq (h : Denotes path names) : components path = names := by
  induction h with
  | root => exact components_root
  | top hname => exact @components_append_name [] _ hname
  | child _ hname ih => rw [components_append_name hname, ih]

/-- The path is absolute. -/
theorem head?_eq (h : Denotes path names) : path.head? = some '/' := by
  induction h with
  | root => rfl
  | top _ => rfl
  | child _ _ ih => simp [ih]

theorem slash_mem (h : Denotes path names) : '/' ∈ path :=
  List.mem_of_mem_head? (h.head?_eq ▸ rfl)

theorem length_pos (h : Denotes path names) : 0 < path.length :=
  List.length_pos_of_mem h.slash_mem

/-- The path that cutting at the last slash leaves; at the leading slash the
root stays. -/
def upTo (path : CString) (lastSlash : ℕ) : CString :=
  if lastSlash = 0 then ['/'] else path.take lastSlash

/-- Cutting at the last slash drops the last name and leaves the root alone. -/
theorem up (h : Denotes path names) :
    ∃ lastSlash, strrchr path '/' = some lastSlash ∧
      Denotes (upTo path lastSlash) names.dropLast := by
  cases h with
  | root => exact ⟨0, by decide, root⟩
  | @top name hname =>
    refine ⟨0, @strrchr_append_cons [] _ _ hname.no_slash, ?_⟩
    simpa [upTo] using root
  | @child path name names hpath hname =>
    refine ⟨path.length, strrchr_append_cons hname.no_slash, ?_⟩
    have hpos : path.length ≠ 0 := hpath.length_pos.ne'
    simpa [upTo, hpos] using hpath

end Denotes

/-- An absolute path spelled without empty components, as `getcwd` returns it. -/
def absolute : List CString → CString
  | [] => ['/']
  | names => names.flatMap ('/' :: ·)

theorem denotes_absolute {names : List CString} (h : ∀ name ∈ names, IsName name) :
    Denotes (absolute names) names := by
  induction names using List.reverseRecOn with
  | nil => exact .root
  | append_singleton names name ih =>
    have hname := h name (by simp)
    have hnames := ih fun n hn => h n (by simp [hn])
    cases names with
    | nil => simpa [absolute] using Denotes.top hname
    | cons n names => simpa [absolute] using Denotes.child hnames hname

end UnixLessons.Text
