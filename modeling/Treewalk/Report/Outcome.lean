import Treewalk.Grammar.Program
import Treewalk.Machine.Limit
import Treewalk.Machine.Loading
import Treewalk.Report.Excerpt
import Treewalk.Report.Hint
import Treewalk.Token.Stream

/-! # Running a source file

From the contents of a file to what is printed, what is reported, and an exit
code: one if there is no program to run, two if the program fails, and 101 if the
process comes to its end in a print.
-/

namespace Treewalk

/-- What became of reading a file. -/
inductive Source where
  /-- There is no such file. -/
  | missing
  /-- The file cannot be read. -/
  | unreadable (reason : String)
  | text (s : String)

/-- The contents of a file, which have to be UTF-8. -/
def Source.ofBytes (bytes : ByteArray) : Source :=
  match String.fromUTF8? bytes with
  | some s => .text s
  | none => .unreadable "stream did not contain valid UTF-8"

/-- How to run a program. -/
structure Settings where
  /-- Print nothing. -/
  quiet : Bool
  /-- The call limit asked for on the command line. -/
  limit : Option Nat
  /-- The call limit asked for by the environment. -/
  setting : Option String

/-- The call limit. The command line goes before the environment. -/
def Settings.callLimit (s : Settings) : Nat := s.limit.getD (Limit.ofSetting s.setting)

/-- What comes of running a source file. -/
structure Outcome where
  code : Nat
  output : String
  /-- The lines of the error report. -/
  errors : List String

/-- The lines that report an error in source text. -/
def sourceReport (kind source : String) (d : Diagnostic) : List String :=
  Excerpt.lines kind source d ++ ((Hint.ofMessage d.message).map Hint.lines).getD []

/-- Whether a fault ends the process before anything can be said about it. -/
def Fault.isCrash : Fault → Bool
  | .unprintable _ => true
  | _ => false

/-- The exit code of a program that fails. -/
def Fault.code (fault : Fault) : Nat := if fault.isCrash then 101 else 2

/-- The lines that report an error of a running program. Of a crash only the
    reason gets out. -/
def runtimeReport (source : String) (e : RunError) : List String :=
  if e.fault.isCrash then [e.fault.message]
  else
    Excerpt.lines "Runtime error" source e.diagnostic ++
      ((Hint.ofFault e.fault).map Hint.lines).getD []

/-- The program that a source text spells, or the lines that report why there is
    none. -/
def Program.ofSource (source : String) : Except (List String) Program :=
  match TokenStream.ofSource source with
  | .error e => .error (sourceReport "Lex error" source ⟨e.fault.message, some e.pos⟩)
  | .ok stream =>
      match Program.ofTokens stream with
      | .error e => .error (sourceReport "Parse error" source ⟨e.fault.message, some e.pos⟩)
      | .ok p => .ok p

/-- What a sink that collects text has collected. -/
def Sink.text : Sink → String
  | .buffer text => text
  | _ => ""

namespace Outcome

/-- Run a program. -/
def ofProgram (settings : Settings) (source : String) (p : Program) : Outcome :=
  let sink : Sink := if settings.quiet then .silent else .buffer ""
  match p.run (.fresh settings.callLimit sink) with
  | .ok _ s => ⟨0, s.sink.text, []⟩
  | .error e s => ⟨e.fault.code, s.sink.text, runtimeReport source e⟩

/-- Run a source file. -/
def ofSource (settings : Settings) (file : String) : Source → Outcome
  | .missing => ⟨1, "", [Excerpt.heading "error" s!"File not found: {file}"]⟩
  | .unreadable reason =>
      ⟨1, "", [Excerpt.heading "error" s!"Failed to read {file}: {reason}"]⟩
  | .text source =>
      match Program.ofSource source with
      | .error lines => ⟨1, "", lines⟩
      | .ok p => ofProgram settings source p

end Outcome

end Treewalk
