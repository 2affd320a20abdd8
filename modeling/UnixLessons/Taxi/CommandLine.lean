import UnixLessons.Taxi.Dispatcher
import UnixLessons.Text.Lines
import UnixLessons.Text.Scanf

/-!
# The lines typed to the dispatcher

A line is compared with the names of the commands, two of them only as far as the name goes.
The numbers behind those two are left to `sscanf`, which asks for no white space in front of
the first one and does not look at what follows the last.

## Main results

* `parse_eq_ok_iff`: which lines are understood, and how
* `commandOf_line`: a command is taken from its own line
-/

namespace UnixLessons.Taxi

open Text

def sendTaskUsage : CString := "Usage: send_task <pid> <task_timer>\n".toList

def getStatusUsage : CString := "Usage: get_status <pid>\n".toList

def unknownCommand (input : CString) : CString :=
  "Unknown command: ".toList ++ input ++ ['\n']

/-- `sscanf` with one number behind a label that was found at the head of the line. -/
def scanOne (label input : CString) : Option Int32 :=
  (scanNumber (input.drop label.length)).1.map Int32.ofInt

/-- `sscanf` with two numbers behind such a label. -/
def scanTwo (label input : CString) : Option (Int32 × Int32) :=
  match scanNumber (input.drop label.length) with
  | (some pid, rest) => (scanNumber rest).1.map fun timer => (Int32.ofInt pid, Int32.ofInt timer)
  | (none, _) => none

/-- The command in a line without its newline, or else what is printed. -/
def parse (input : CString) : Except CString Command :=
  if input = "create_driver".toList then .ok .createDriver
  else if input = "get_drivers".toList then .ok .getDrivers
  else if "send_task".toList.isPrefixOf input then
    match scanTwo "send_task".toList input with
    | some (pid, timer) => .ok (.sendTask pid timer)
    | none => .error sendTaskUsage
  else if "get_status".toList.isPrefixOf input then
    match scanOne "get_status".toList input with
    | some pid => .ok (.getStatus pid)
    | none => .error getStatusUsage
  else if input = "exit".toList ∨ input = "quit".toList then .ok .exit
  else if input ≠ [] then .error (unknownCommand input)
  else .error []

/-- The command the loop goes on with. -/
def commandOf (input : CString) : Command :=
  match parse input with
  | .ok command => command
  | .error _ => .other

namespace Command

/-- A line for a command, as the help text shows it. -/
def line : Command → CString
  | .createDriver => "create_driver".toList
  | .sendTask pid timer =>
    "send_task".toList ++ (' ' :: decimal pid.toInt ++ ' ' :: decimal timer.toInt)
  | .getStatus pid => "get_status".toList ++ ' ' :: decimal pid.toInt
  | .getDrivers => "get_drivers".toList
  | .exit => "exit".toList
  | .other => []

end Command

/-- A line means a command. The first numeral needs no white space in front of it, and behind
the last one anything may follow. -/
inductive Means : CString → Command → Prop
  | createDriver : Means "create_driver".toList .createDriver
  | getDrivers : Means "get_drivers".toList .getDrivers
  | sendTask {x y z : CString} {i j : ℤ} (hx : Numeral x i) (hy : Numeral y j)
      (hfirst : DigitFree (y ++ z)) (hlast : DigitFree z) :
      Means ("send_task".toList ++ (x ++ (y ++ z))) (.sendTask (Int32.ofInt i) (Int32.ofInt j))
  | getStatus {x z : CString} {i : ℤ} (hx : Numeral x i) (hlast : DigitFree z) :
      Means ("get_status".toList ++ (x ++ z)) (.getStatus (Int32.ofInt i))
  | exit : Means "exit".toList .exit
  | quit : Means "quit".toList .exit

variable {input : CString} {pid timer : Int32} {c : Command}

/-! ### The lines that are understood -/

theorem numeral_int32 (i : Int32) : Numeral (' ' :: decimal i.toInt) i.toInt :=
  .blank (by decide) (numeral_decimal i.le_toInt i.toInt_lt)

theorem means_of_scanTwo (h : scanTwo "send_task".toList ("send_task".toList ++ input) =
    some (pid, timer)) : Means ("send_task".toList ++ input) (.sendTask pid timer) := by
  rw [scanTwo, List.drop_left] at h
  split at h
  · rename_i i rest hfirst
    obtain ⟨j, hsecond, hpair⟩ := Option.map_eq_some_iff.mp h
    obtain ⟨rfl, rfl⟩ := Prod.mk.inj hpair
    obtain ⟨x, rfl, hx, hrest⟩ := scanNumber_eq_some_iff.mp hfirst
    obtain ⟨y, heq, hy, hz⟩ := scanNumber_eq_some_iff.mp (Prod.ext hsecond rfl)
    rw [heq] at hrest ⊢
    exact .sendTask hx hy hrest hz
  · cases h

theorem means_of_scanOne (h : scanOne "get_status".toList ("get_status".toList ++ input) =
    some pid) : Means ("get_status".toList ++ input) (.getStatus pid) := by
  rw [scanOne, List.drop_left] at h
  obtain ⟨i, hfirst, rfl⟩ := Option.map_eq_some_iff.mp h
  obtain ⟨x, heq, hx, hz⟩ := scanNumber_eq_some_iff.mp (Prod.ext hfirst rfl)
  rw [heq]
  exact .getStatus hx hz

theorem means_of_parse (h : parse input = .ok c) : Means input c := by
  rw [parse] at h
  split at h
  · rename_i heq
    cases h
    exact heq ▸ .createDriver
  split at h
  · rename_i heq
    cases h
    exact heq ▸ .getDrivers
  split at h
  · rename_i hhead
    obtain ⟨text, rfl⟩ := List.isPrefixOf_iff_prefix.mp hhead
    split at h
    · rename_i hscan
      cases h
      exact means_of_scanTwo hscan
    · cases h
  split at h
  · rename_i hhead
    obtain ⟨text, rfl⟩ := List.isPrefixOf_iff_prefix.mp hhead
    split at h
    · rename_i hscan
      cases h
      exact means_of_scanOne hscan
    · cases h
  split at h
  · rename_i heq
    cases h
    rcases heq with rfl | rfl
    · exact .exit
    · exact .quit
  split at h <;> cases h

theorem parse_of_means (h : Means input c) : parse input = .ok c := by
  cases h with
  | createDriver | getDrivers | exit | quit => rfl
  | @sendTask x y z i j hx hy hfirst hlast =>
    have hscan : scanTwo "send_task".toList ("send_task".toList ++ (x ++ (y ++ z))) =
        some (Int32.ofInt i, Int32.ofInt j) := by
      rw [scanTwo, List.drop_left]
      simp only [hx.scanNumber hfirst, hy.scanNumber hlast, Option.map_some]
    rw [parse, if_neg (by simp), if_neg (by simp), if_pos (by simp), hscan]
  | @getStatus x z i hx hlast =>
    have hscan : scanOne "get_status".toList ("get_status".toList ++ (x ++ z)) =
        some (Int32.ofInt i) := by
      rw [scanOne, List.drop_left, hx.scanNumber hlast]
      rfl
    rw [parse, if_neg (by simp), if_neg (by simp), if_neg (by simp), if_pos (by simp), hscan]

/-- The dispatcher understands exactly the lines that mean a command, and as this command. -/
theorem parse_eq_ok_iff : parse input = .ok c ↔ Means input c :=
  ⟨means_of_parse, parse_of_means⟩

/-! ### Lines as they are meant -/

theorem means_line (hother : c ≠ .other) : Means c.line c := by
  cases c with
  | createDriver => exact .createDriver
  | getDrivers => exact .getDrivers
  | exit => exact .exit
  | other => exact absurd rfl hother
  | sendTask pid timer =>
    have hfirst : DigitFree (' ' :: decimal timer.toInt ++ []) := by
      intro d hd
      obtain rfl : ' ' = d := Option.some.inj hd
      decide
    have hmeans := Means.sendTask (numeral_int32 pid) (numeral_int32 timer) hfirst digitFree_nil
    rwa [List.append_nil, Int32.ofInt_toInt, Int32.ofInt_toInt] at hmeans
  | getStatus pid =>
    have hmeans := Means.getStatus (numeral_int32 pid) digitFree_nil
    rwa [List.append_nil, Int32.ofInt_toInt] at hmeans

/-- The round trip. -/
theorem commandOf_line (c : Command) : commandOf c.line = c := by
  by_cases hother : c = .other
  · rw [hother]
    rfl
  · rw [commandOf, parse_of_means (means_line hother)]

end UnixLessons.Taxi
