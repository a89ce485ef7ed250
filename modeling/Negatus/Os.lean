import Negatus.Machine

/-!
# NSPR and the operating system

Everything the agent learns from outside is an answer to a call it makes. An
`Os` holds the answers that are still to come, one list per kind of call, so a
run is determined by its `Os` and every behaviour of the network, the disk, the
clock and the child processes is some `Os`. A list that has run out goes on
with the uneventful answer: nothing to read, everything accepted, no failure.
-/

namespace Negatus

/-- `PR_Recv` on a socket that is not closed. It never reports zero bytes as data. -/
inductive RecvAnswer where
  | data (b : UInt8) (bs : Bytes)
  | wouldBlock
  | eof
  | error
deriving DecidableEq, Repr

/-- The number of bytes that an answer of `PR_Recv` can deliver. -/
def RecvAnswer.size : RecvAnswer → Nat
  | .data _ bs => bs.length + 1
  | _ => 0

/-- The bytes that an answer of `PR_Recv` delivers. -/
def RecvAnswer.bytes : RecvAnswer → Bytes
  | .data b bs => b :: bs
  | _ => []

/-- `PR_Recv` delivers `bs`. -/
def RecvAnswer.deliver : Bytes → RecvAnswer
  | [] => .wouldBlock
  | b :: bs => .data b bs

@[simp] theorem RecvAnswer.deliver_bytes (bs : Bytes) : (deliver bs).bytes = bs := by
  cases bs <;> rfl

/-- `PR_Send`; a count out of range stands for the whole buffer. -/
inductive SendAnswer where
  | all
  | short (k : Nat)
  | wouldBlock
  | error
deriving DecidableEq, Repr

/-- A call on a socket, with the descriptor that it is given or that it returns. -/
inductive NsprCall where
  | openTCPSocket (fd : Option Nat)
  | accept (fd : Option Nat)
  | setSocketOption (fd : Option Nat)
  | recv (fd : Option Nat)
  | send (fd : Option Nat)
  | shutdown (fd : Option Nat)
  | close (fd : Option Nat)
deriving DecidableEq, Repr

/-- `read` on the pipe of a child process, at most as much as was asked for. -/
inductive PipeAnswer where
  | data (b : UInt8) (bs : Bytes)
  | again
  | eof
  | error
deriving DecidableEq, Repr

/-- `PR_Read` on a file: at most `k + 1` bytes of what is left, or an error. -/
inductive ReadAnswer where
  | upTo (k : Nat)
  | error
deriving DecidableEq, Repr

/-- `PR_Write`; a count out of range stands for the whole buffer. -/
inductive WriteAnswer where
  | all
  | short (k : Nat)
  | error
deriving DecidableEq, Repr

structure ExplodedTime where
  tm_usec : Nat
  tm_sec : Nat
  tm_min : Nat
  tm_hour : Nat
  tm_mday : Nat
  tm_month : Nat
  tm_year : Nat
deriving DecidableEq, Repr

/-- The conversions of NSPR and of the C library that the agent calls, and its log. A number
that does not fit into the integer that it is stored in has no defined value there. -/
structure Platform where
  /-- `PR_strtod`, stored in a `PRUint64` -/
  strtod : Bytes → Option UInt64
  /-- `PR_strtod`, stored in a `PRInt16` -/
  strtodPort : Bytes → Option Int16
  millisecondsToInterval : UInt32 → UInt32
  secondsToInterval : UInt32 → UInt32
  /-- `PR_ExplodeTime` with `PR_LocalTimeParameters`. -/
  explodeTime : UInt64 → ExplodedTime
  /-- `localtime`, with the year of the calendar. -/
  localtime : UInt64 → ExplodedTime
  /-- `sscanf(s, "%lf", &uptime)`, then `(int) (uptime * 1000)` -/
  scanMillis : Bytes → Option Int
  /-- nothing is scanned in an empty text -/
  scanMillis_nil : scanMillis [] = none
  /-- `NSPR_LOG_MODULES` has the module of the agent -/
  logging : Bool
  /-- `PR_LogPrint` takes an argument for a conversion of this format -/
  readsArgument : Bytes → Bool
  /-- a format without a `%` has no conversions -/
  readsArgument_plain : ∀ format, 37 ∉ format → readsArgument format = false

/-- Numbers are decimal, intervals are counted in milliseconds, the clock stands still, and
nothing is logged. -/
def Platform.plain : Platform where
  strtod s := decimal s (2 ^ 64) UInt64.ofNat
  strtodPort s := decimal s (2 ^ 15) Int16.ofNat
  millisecondsToInterval ms := ms
  secondsToInterval s := 1000 * s
  explodeTime _ := ⟨0, 0, 0, 0, 1, 0, 1970⟩
  localtime _ := ⟨0, 0, 0, 0, 1, 0, 1970⟩
  scanMillis s := if s = [] then none else some 0
  scanMillis_nil := rfl
  logging := false
  readsArgument format := 37 ∈ format
  readsArgument_plain _ hplain := decide_eq_false hplain
where
  decimal {α : Type} (s : Bytes) (bound : Nat) (store : Nat → α) : Option α :=
    let n := (s.takeWhile fun c => 48 ≤ c && c ≤ 57).foldl (fun n c => 10 * n + (c - 48).toNat) 0
    if n < bound then some (store n) else none

abbrev Environ : Type := List (Bytes × Bytes)

/-- The answers that the commands of the shell live on. -/
structure System where
  /-- calls that succeed or fail: `PR_Access`, `PR_Open`, `PR_Seek64`, `fopen`, … -/
  checks : List Bool := []
  /-- calls that return a text or nothing: the text of a file or of a command, the
  working directory -/
  texts : List (Option Bytes) := []
  /-- `PR_OpenDir`, with the entries that `PR_ReadDir` will return -/
  dirs : List (Option (List Bytes)) := []
  /-- `PR_GetFileInfo` on a path: `some true` for a directory -/
  kinds : List (Option Bool) := []
  /-- `PR_Now` and `time` -/
  nows : List UInt64 := []
  /-- `Config::instance()->mTestRoot` -/
  testRoot : Bytes := []
deriving DecidableEq, Repr

structure Os extends System where
  recvs : List RecvAnswer := []
  sends : List SendAnswer := []
  /-- `PR_GetOpenFileInfo`: the size field, converted to `PRUint64` -/
  sizes : List (Option UInt64) := []
  reads : List ReadAnswer := []
  writes : List WriteAnswer := []
  popens : List Bool := []
  pipes : List PipeAnswer := []
  /-- what `pclose` returns -/
  exits : List Int32 := []
  /-- clock ticks that pass before the next `PR_IntervalNow` -/
  ticks : List Nat := []
  /-- clock ticks up to the last `PR_IntervalNow` -/
  now : Nat := 0
  /-- ghost: the calls on sockets up to now -/
  calls : List NsprCall := []
  environ : Environ := []
  /-- the files on disk, by path -/
  files : Bytes → Bytes := fun _ => []

namespace System

def check (s : System) : Bool × System :=
  (s.checks.headD true, { s with checks := s.checks.tail })

def text (s : System) : Option Bytes × System :=
  (s.texts.headD none, { s with texts := s.texts.tail })

def openDir (s : System) : Option (List Bytes) × System :=
  (s.dirs.headD none, { s with dirs := s.dirs.tail })

def kind (s : System) : Option Bool × System :=
  (s.kinds.headD none, { s with kinds := s.kinds.tail })

def prNow (s : System) : UInt64 × System :=
  (s.nows.headD 0, { s with nows := s.nows.tail })

end System

namespace Os

/-- `PR_IntervalNow`: a counter of 32 bits. -/
def intervalNow (os : Os) : UInt32 × Os :=
  let now := os.now + os.ticks.headD 0
  (UInt32.ofNat now, { os with now, ticks := os.ticks.tail })

def note (call : NsprCall) (os : Os) : Os := { os with calls := os.calls ++ [call] }

def recv (os : Os) : RecvAnswer × Os :=
  (os.recvs.headD .wouldBlock, { os with recvs := os.recvs.tail })

/-- The number of bytes that `PR_Recv` can still deliver. -/
def pending (os : Os) : Nat := (os.recvs.map RecvAnswer.size).sum

theorem recv_pending {os os' : Os} {answer : RecvAnswer} (h : os.recv = (answer, os')) :
    answer.size + os'.pending = os.pending := by
  obtain ⟨rfl, rfl⟩ := Prod.mk.inj h
  unfold pending
  cases os.recvs with
  | nil => rfl
  | cons a rest => rfl

def send (os : Os) : SendAnswer × Os :=
  (os.sends.headD .all, { os with sends := os.sends.tail })

def check (os : Os) : Bool × Os :=
  let (ok, s) := os.toSystem.check
  (ok, { os with toSystem := s })

def openFileSize (os : Os) : Option UInt64 × Os :=
  (os.sizes.headD none, { os with sizes := os.sizes.tail })

def read (os : Os) (path : Bytes) (pos size : Nat) : Option Bytes × Os :=
  let os' := { os with reads := os.reads.tail }
  match os.reads.head? with
  | none => (some (((os.files path).drop pos).take size), os')
  | some (.upTo k) => (some (((os.files path).drop pos).take (min size (k + 1))), os')
  | some .error => (none, os')

def write (os : Os) (size : Nat) : Nat × Os :=
  let os' := { os with writes := os.writes.tail }
  match os.writes.headD .all with
  | .all => (size, os')
  | .short k => (if k < size then k else size, os')
  | .error => (0, os')

def popen (os : Os) : Bool × Os :=
  (os.popens.headD true, { os with popens := os.popens.tail })

def pipe (os : Os) : PipeAnswer × Os :=
  (os.pipes.headD .again, { os with pipes := os.pipes.tail })

def pclose (os : Os) : Int × Os :=
  ((os.exits.headD 0).toInt, { os with exits := os.exits.tail })

/-! ### The environment -/

def getenv (os : Os) (name : Bytes) : Option Bytes := os.environ.lookup name

/-- `setenv(name, value, 1)`; it fails on an empty name and on one with a `=`. -/
def setenv (os : Os) (name value : Bytes) : Os :=
  if name = [] ∨ 61 ∈ name then os
  else { os with environ := os.environ.filter (·.1 ≠ name) ++ [(name, value)] }

def unsetenv (os : Os) (name : Bytes) : Os :=
  { os with environ := os.environ.filter (·.1 ≠ name) }

end Os

/-- What a connection does, call by call, in order. -/
inductive Event where
  | recv (bs : Bytes)                              -- `PR_Recv` delivered `bs`
  | recvEnd                                        -- it reported EOF or an error
  | send (bs : Bytes) (accepted : Nat)             -- `PR_Send` took `accepted` bytes of `bs`
  | closeSocket
  | readLine (raw : Bytes)                         -- bytes handed out by `readLine`
  | read (bs : Bytes)                              -- bytes handed out by `read`
  | handleLine (line : Bytes)
  | prompt                                         -- `$>` and NUL have been sent
  | openRead (path : Bytes) (ok : Bool)            -- `PR_Open` of a pull
  | fileInfo (path : Bytes) (size : Option UInt64) -- `PR_GetOpenFileInfo`, its size field
  | readFile (path : Bytes) (pos size : Nat) (got : Option Bytes)   -- `PR_Read` at `pos`
  | openWrite (path : Bytes) (ok : Bool)           -- `PR_Open` of a push
  | closeFile (path : Bytes)
  | writeFile (bs : Bytes) (stored : Nat)          -- `PR_Write` stored `stored` bytes of `bs`
  | popen (cmdLine : Bytes) (env : Environ) (ok : Bool)
  | pipe (bs : Bytes)                              -- bytes read from the child
  | pipeError
  | pclose (ret : Int)
  | openRebootFile (path : Bytes) (ok : Bool)
  | writeRebootFile (bs : Bytes)
  | reboot
  | attach                                         -- a data handler takes over
  | release (resumes : Bool)                       -- it is deleted; are lines read on at once?
deriving DecidableEq, Repr

/-- Calls that send or that look after a file: they take nothing from the input. -/
def Event.isOutput : Event → Bool
  | .send _ _ | .closeSocket | .openRead _ _ | .fileInfo _ _ | .readFile _ _ _ _
  | .closeFile _ => true
  | _ => false

/-- Ways in which the process goes wrong. -/
inductive Crash where
  | undefined       -- the C++ has no defined behaviour
  | exception       -- an exception that nothing catches
  | hang            -- a loop that does not end
  | nullDeref
deriving DecidableEq, Repr

/-- Why a call does not return. -/
inductive Fault where
  | crash (c : Crash)
  | useAfterFree
  | outOfFuel       -- a loop of the model has been cut short
deriving DecidableEq, Repr

structure PollFlags where
  read : Bool := false
  write : Bool := false
  other : Bool := false     -- `PR_POLL_ERR`, `PR_POLL_HUP`, `PR_POLL_NVAL`
deriving DecidableEq, Repr

/-- `PRPollDesc` -/
structure PollDesc where
  fd : Option Nat
  in_flags : PollFlags
  out_flags : PollFlags := {}
deriving DecidableEq, Repr

/-- An entry of the reactor's `mTimeouts`, but for its handler. -/
structure Timeout where
  epoch : UInt32
  interval : UInt32
deriving DecidableEq, Repr

end Negatus
