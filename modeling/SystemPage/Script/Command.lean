/-
  SystemPage.Script.Command — what a script line asks for.

      alias NAME PLACE SIZE                 names a payload
      map NAME START STOP LETTERS           adds a map
      app NAME[;ARGS] [-x] IMAPS DMAPS      adds a program
      console MAJOR.MINOR                   sets the console

  A line with any other first word is meant for the boot loader and has no effect on the page.
  What a command asks for is read off its words alone; only then is it performed.
-/
import SystemPage.Access
import SystemPage.Program

namespace SystemPage
namespace Script

/-! ## §1. Commands. -/

/-- What a line with words in it asks for. -/
inductive Command where
  | payload (name : String) (place size : UInt32)
  | map (name : String) (start stop access : UInt32)
  | program (payload instructionMaps dataMaps argv : String) (atOnce : Bool)
  | console (token : String)
  -- nothing that concerns the page
  | foreign (name : String)
  deriving DecidableEq, Repr

/-! ## §2. Reading words. -/

/-- The number that a word denotes. -/
def number (word : String) : Except Fault UInt32 := (parseWord word).mapError .numeral

/-- The ways of access that a word of letters grants. -/
def access (word : String) : Except Fault UInt32 :=
  match Access.ofLetters word.toList with
  | .ok accesses => .ok (Access.mask accesses)
  | .error letter => .error (.unknownLetter letter word)

/-- Whether a word stands where a flag may stand and looks like one. -/
def looksLikeFlag (word : String) : Bool := word.toList.head? == some '-'

/-- Whether a word is the flag of a program that is started at once. -/
def isStartFlag (word : String) : Bool := word == "-x" || word == "-X"

/-- The program that an argument text and two lists of maps ask for.  The payload is named by the
text up to the first semicolon. -/
def programCommand (argv instructionMaps dataMaps : String) (atOnce : Bool) : Command :=
  .program (String.ofList (Text.cut ';' argv.toList).1) instructionMaps dataMaps argv atOnce

/-- What the words after `app` ask for. -/
def programOfWords : List String → Except Fault Command
  | [argv, instructionMaps, dataMaps] =>
    if !looksLikeFlag instructionMaps then
      .ok (programCommand argv instructionMaps dataMaps false)
    else if isStartFlag instructionMaps then .error .programLists
    else .error (.programFlag instructionMaps)
  | [argv, flag, instructionMaps, dataMaps] =>
    if !looksLikeFlag flag then .error .programLists
    else if isStartFlag flag then .ok (programCommand argv instructionMaps dataMaps true)
    else .error (.programFlag flag)
  | words => .error (.programWordCount words.length)

/-- What a first word and the words after it ask for. -/
def Command.ofWords (name : String) (words : List String) : Except Fault Command :=
  if name = "alias" then
    match words with
    | [target, place, size] => do
      let place ← number place
      let size ← number size
      return .payload target place size
    | _ => .error (.wordCount name 3 words.length)
  else if name = "map" then
    match words with
    | [target, start, stop, letters] => do
      let start ← number start
      let stop ← number stop
      let granted ← access letters
      return .map target start stop granted
    | _ => .error (.wordCount name 4 words.length)
  else if name = "app" then programOfWords words
  else if name = "console" then
    match words with
    | [token] => .ok (.console token)
    | _ => .error (.wordCount name 1 words.length)
  else .ok (.foreign name)

/-! ## §3. Performing. -/

/-- Does to a session what a command asks for. -/
def Command.perform : Command → Edit Session Unit
  | .payload name place size => Session.insertAlias name place size
  | .map name start stop access => discard <| Session.insertMap name start stop access
  | .program target instructionMaps dataMaps argv atOnce =>
    discard <| Session.insertProgram target instructionMaps dataMaps argv atOnce
  | .console token => Session.selectConsole token
  | .foreign _ => pure ()

/-- Does to a session what the words of a line ask for.  A line without words asks for nothing. -/
def performWords : List String → Edit Session Unit
  | [] => pure ()
  | name :: words => do
    let command ← Edit.look fun _ => Command.ofWords name words
    command.perform

end Script
end SystemPage
