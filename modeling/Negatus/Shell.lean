import Negatus.Foundations.Program
import Negatus.DataHandler.Push

/-!
# Commands that answer at once

The commands of `CommandEventHandler.cpp` that ask the system something and
return the answer. They see neither the connection nor the reactor: their only
state is the `System`. The build is the one of `Makefile.linux`.
-/

namespace Negatus

open Foundations

/-- A computation that only calls the system. -/
abbrev Sys : Type → Type := EStateM Crash System

namespace Shell

def ask {α : Type} (call : System → α × System) : Sys α := modifyGet call

/-- `readTextFile`: nothing if the file cannot be opened. -/
def readTextFile : Sys (Option Bytes) := do
  let text ← ask System.text
  pure (text.map fun t => eraseLast (fgetsAll t))

def pad (width n : Nat) : Bytes :=
  let digits := itoa n
  List.replicate (width - digits.length) 48 ++ digits

/-- `id()`: the address of the first network interface that has one. -/
def id : Sys Bytes := go [str "wlan0", str "usb0", str "eth0", str "lo"]
where
  go : List Bytes → Sys Bytes
    | [] => pure (str "00:00:00:00:00:00")
    | iface :: ifaces => do
        match ← ask System.text with
        | none => go ifaces
        | some text =>
            -- an empty file leaves the path in the buffer
            let buffer :=
              if text = [] then str "/sys/class/net/" ++ iface ++ str "/address"
              else cstr (fgets text).1
            if buffer = [] then throw .undefined else pure buffer.dropLast

def isDir : Sys Bytes := do
  match ← ask System.kind with
  | some true => pure (str "TRUE")
  | _ => pure (str "FALSE")

/-- The answer of `isDir`, checked as `cd`, `dirw` and `ls` check it. -/
def withDir (onDir : Sys Bytes) : Sys Bytes := do
  let ret ← isDir
  if ret ≠ str "TRUE" then
    if ret = str "FALSE" then pure (agentWarn (str "path is not a dir")) else pure ret
  else onDir

def cd (_args : List Bytes) : Sys Bytes := withDir do
  if ← ask System.check then
    if ← ask System.check then return []
  return agentWarn (str "no permissions")

def cwd : Sys Bytes := do
  match ← ask System.text with
  | none => throw .undefined
  | some buffer => pure (cstr buffer)

def clok : Sys Bytes := do
  let now ← ask System.prNow
  pure (itoa (now.toNat / 1000))

def dirw (args : List Bytes) : Sys Bytes := do
  let path := args.headD []
  withDir do
    if ← ask System.check then return path ++ str " is writable"
    return path ++ str " is not writable"

def hash : List Bytes → Sys Bytes
  | [] => pure (agentWarnInvalidNumArgs 1)
  | path :: _ => do
      if !(← ask System.check) then
        return agentWarn (str "Couldn't calculate hash for file " ++ path ++
          str ": cannot open file for reading")
      ask fileHash

/-! ## `info` -/

def systime (P : Platform) : Sys Bytes := do
  let ts := P.explodeTime (← ask System.prNow)
  pure (itoa ts.tm_year ++ str "/" ++ pad 2 (ts.tm_month + 1) ++ str "/" ++ pad 2 ts.tm_mday ++
    str " " ++ pad 2 ts.tm_hour ++ str ":" ++ pad 2 ts.tm_min ++ str ":" ++ pad 2 ts.tm_sec ++
    str ":" ++ pad 3 (ts.tm_usec / 1000))

def uptimemillis (P : Platform) : Sys Bytes := do
  match ← readTextFile with
  | none => pure (agentWarn (str "could not read /proc/uptime"))
  | some uptime =>
      match P.scanMillis (cstr uptime) with
      | none => throw .undefined
      | some millis => pure (intStr millis)

def screen : Sys Bytes := do
  match ← readTextFile with
  | none => pure (agentWarn (str "could not read screen mode"))
  | some out => pure out

def isDigit (c : UInt8) : Bool := 48 ≤ c && c ≤ 57

/-- `sscanf(buffer + getFirstIntPos(buffer, BUFSIZE), "%lu", &n)`, over the bytes of the
buffer that have been written; the search does not stop at a NUL, and without a digit it
runs into bytes that nothing has written. -/
def scanFirstInt (buffer : Bytes) : Sys Nat :=
  match buffer.dropWhile (!isDigit ·) with
  | [] => throw .undefined
  | c :: rest =>
      let n := ((c :: rest).takeWhile isDigit).foldl (fun n d => 10 * n + (d.toNat - 48)) 0
      if n < 2 ^ 64 then pure n else throw .undefined

def memory : Sys Bytes := do
  match ← ask System.text with
  | none => pure (agentWarn (str "Error on fopen: /proc/meminfo, with mode r"))
  | some meminfo =>
      if meminfo = [] then throw .undefined
      let (line, rest) := fgets meminfo
      let buffer := line ++ [0]
      let total ← scanFirstInt buffer
      -- the second `fgets` leaves the end of the first line, or all of it at the end of the file
      let line' := if rest = [] then [] else (fgets rest).1 ++ [0]
      let available ← scanFirstInt (line' ++ buffer.drop line'.length)
      pure (str "Total: " ++ itoa (total * 1000 % 2 ^ 64) ++ str "; Available: " ++
        itoa (available * 1000 % 2 ^ 64) ++ str ".")

def power : Sys Bytes := do
  match ← readTextFile with
  | none => pure (agentWarn (str "could not read battery capacity"))
  | some capacity =>
      match ← readTextFile with
      | none => pure (agentWarn (str "could not read battery status"))
      | some status =>
          pure (str "Power status:" ++ endl ++ str "\tCurrent %: " ++ capacity ++
            str "\tStatus: " ++ status)

def info (P : Platform) (args : List Bytes) : Sys Bytes :=
  match args with
  | [arg] =>
      if arg = str "id" then id
      else if arg = str "os" then pure (str "linux")
      else if arg = str "systime" then systime P
      else if arg = str "uptime" then ask getCmdOutput
      else if arg = str "uptimemillis" then uptimemillis P
      else if arg = str "screen" then screen
      else if arg = str "memory" then memory
      else if arg = str "power" then power
      else pure (agentWarn (str "Invalid info subcommand."))
  | _ => pure (agentWarnInvalidNumArgs 1)

/-! ## Files and processes -/

def isDirArgs : List Bytes → Sys Bytes
  | [] => pure (agentWarnInvalidNumArgs 1)
  | _ :: _ => isDir

/-- `int pid = strtol(name, NULL, 10)` is not zero, for a directory entry of `/proc`. A number
that does not fit into a `long` becomes the nearest that does, and 32 bits of it are stored. -/
def isPid (name : Bytes) : Bool :=
  let text := (cstr name).dropWhile fun c => isBlank c || c = 11 || c = 12
  let negative := text.head? = some 45
  let text := if text.head? = some 43 ∨ negative then text.tail else text
  let n : Int := (text.takeWhile isDigit).foldl (fun n d => 10 * n + (d.toNat - 48)) 0
  max (-2 ^ 63) (min (if negative then -n else n) (2 ^ 63 - 1)) % 2 ^ 32 ≠ 0

/-- The loop of `kill` over the entries of `/proc`. -/
def killLoop (procname : Bytes) : List Bytes → (killed : Bool) → Sys Bool
  | [], killed => pure killed
  | entry :: entries, killed => do
      if isPid entry then
        match ← readTextFile with
        | none => killLoop procname entries killed
        | some comm =>
            if cstr comm = procname then
              let ok ← ask System.check
              killLoop procname entries (killed || ok)
            else killLoop procname entries killed
      else killLoop procname entries killed

def kill : List Bytes → Sys Bytes
  | [procname] => do
      match ← ask System.openDir with
      | none => throw .nullDeref
      | some entries =>
          if ← killLoop procname entries false then
            return str "Successfully killed " ++ procname
          return str "Unable to kill " ++ procname
  | _ => pure (agentWarnInvalidNumArgs 1)

def ls (_args : List Bytes) : Sys Bytes := withDir do
  match ← ask System.openDir with
  | none => throw .nullDeref
  | some entries =>
      if !(← ask System.check) then return agentWarn (str "could not close dir object")
      return eraseLast (entries.flatMap (· ++ endl))

def mkdr : List Bytes → Sys Bytes
  | [] => pure (agentWarnInvalidNumArgs 1)
  | path :: _ => do
      if !(← ask System.check) then return agentWarn (str "Could not create directory " ++ path)
      return path ++ str " successfuly created"

def rmPath (path : Bytes) : Sys Bytes := do
  if ← ask System.check then return str "removing file" ++ path
  return agentWarn (str "error: could not delete " ++ path)

def rm : List Bytes → Sys Bytes
  | [] => pure (agentWarnInvalidNumArgs 1)
  | path :: _ => rmPath path

/-- `joinPaths`; the first path is indexed at `length() - 1`. -/
def joinPaths (p1 p2 : Bytes) : Except Crash Bytes :=
  if p1 = [] then .error .undefined
  else
    let p1 := if p1.getLast? = some 47 then p1.dropLast else p1
    let p2 := if p2.head? = some 47 then p2.tail else p2
    .ok (p1 ++ str "/" ++ p2)

/-- `do_rmdr`: what it appends to `out`. The depth is bounded: a directory is one
more answer of `PR_GetFileInfo`, and without answers nothing is a directory. -/
def doRmdr : (depth : Nat) → (path : Bytes) → Sys Bytes
  | 0, path => do
      let _ ← isDir
      let _ ← rmPath path
      return []
  | depth + 1, path => do
      let ret ← isDir
      if ret ≠ str "TRUE" then
        let _ ← rmPath path
        return []
      match ← ask System.openDir with
      | none => throw .nullDeref
      | some entries =>
          let out ← entries.foldlM (fun out entry => do
            match joinPaths path entry with
            | .error e => throw e
            | .ok p =>
                let more ← doRmdr depth p
                pure (out ++ more)) []
          let closed ← ask System.check
          let out := if closed then out else out ++ str "error: could not close dir object" ++ endl
          let removed ← ask System.check
          return if removed then out else out ++ str "error: could not remove " ++ path ++ endl

def rmdr : List Bytes → Sys Bytes
  | [] => pure (agentWarnInvalidNumArgs 1)
  | path :: _ => do
      let s ← get
      doRmdr s.kinds.length path

/-! ## The clock -/

def strtod (P : Platform) (text : Bytes) : Sys UInt64 :=
  match P.strtod text with
  | none => throw .undefined
  | some n => pure n

/-- `ints.push_back(PR_strtod(tok, NULL))`, for one token after the other. -/
def pushInts (P : Platform) : List Bytes → Sys (List UInt64)
  | [] => pure []
  | tok :: toks => do
      let n ← strtod P tok
      let ints ← pushInts P toks
      pure (n :: ints)

def settime (P : Platform) : List Bytes → Sys Bytes
  | dates :: times :: _ => do
      let ints ← pushInts P (strtok (· = 47) dates)
      if ints.length < 3 then return agentWarn (str "Invalid argument(s)")
      let ints ← pushInts P (strtok (· = 58) times)
      if ints.length < 3 then return agentWarn (str "Invalid argument(s)")
      let t := P.localtime (← ask System.prNow)
      return itoa t.tm_year ++ str "/" ++ itoa (t.tm_month + 1) ++ str "/" ++ itoa t.tm_mday ++
        str " " ++ itoa t.tm_hour ++ str ":" ++ itoa t.tm_min ++ str ":" ++ itoa t.tm_sec
  | _ => pure (agentWarnInvalidNumArgs 2)

def setutime (P : Platform) : List Bytes → Sys Bytes
  | [] => pure (agentWarnInvalidNumArgs 1)
  | times :: _ => do
      let _ ← strtod P times
      clok

def testroot : Sys Bytes := do
  let s ← get
  pure s.testRoot

def ver : Sys Bytes := pure (str "SUTAgentNegatus Version 1.1")

/-- The commands of this module by their words; nothing for the others. -/
def command (P : Platform) (cmd : Bytes) (args : List Bytes) : Option (Sys Bytes) :=
  if cmd = str "cd" then some (cd args)
  else if cmd = str "cwd" then some cwd
  else if cmd = str "clok" then some clok
  else if cmd = str "dirw" then some (dirw args)
  else if cmd = str "hash" then some (hash args)
  else if cmd = str "info" then some (info P args)
  else if cmd = str "ps" then some (ask getCmdOutput)
  else if cmd = str "isdir" then some (isDirArgs args)
  else if cmd = str "kill" then some (kill args)
  else if cmd = str "ls" then some (ls args)
  else if cmd = str "mkdr" then some (mkdr args)
  else if cmd = str "rm" then some (rm args)
  else if cmd = str "rmdr" then some (rmdr args)
  else if cmd = str "settime" then some (settime P args)
  else if cmd = str "setutime" then some (setutime P args)
  else if cmd = str "testroot" then some testroot
  else if cmd = str "ver" then some ver
  else none

end Shell

end Negatus
