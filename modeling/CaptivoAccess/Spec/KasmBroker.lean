import CaptivoAccess.Lib.Run

/-! The broker of the isolated browsers (`kasm-browser/control.py`): `open_session`,
`close_session`, the reaper, and the processes that they start and kill. A call of
`open_session` holds the lock from the choice of its display until its session is in the
table. Sessions are taken out of the table under the lock and killed after it is
released, each by a thread of its own. A process may end by itself at any time; one that
gets SIGTERM need not, and one that gets SIGKILL is gone. -/

namespace Captivo.Kasm

inductive Program where
  | Xvnc
  | fluxbox
  | hsetroot
  | chromium
  deriving DecidableEq

/-- `s<time>-<n>`. -/
structure Sid where
  time : ℤ
  n : ℕ
  deriving DecidableEq

structure Proc where
  program : Program
  sid : Sid
  display : ℕ
  deriving DecidableEq

structure Session where
  sid : Sid
  display : ℕ
  procs : List Proc
  started : ℤ
  deriving DecidableEq

/-- The call of `open_session` that holds the lock, and what it has still to start. -/
structure Opening where
  session : Session
  next : List Program
  deriving DecidableEq

/-- A run of `_kill`: who is still to get SIGTERM, and who SIGKILL. -/
structure Job where
  term : List Proc
  kill : List Proc
  deriving DecidableEq

structure Broker where
  sessions : List Session
  seq : ℕ
  opening : Option Opening
  jobs : List Job
  alive : List Proc
  deriving DecidableEq

inductive Event where
  /-- A call of `open_session` gets the lock. -/
  | acquire (time : ℤ)
  | spawn
  /-- What `_spawn` does next raises, and the lock is released. -/
  | raise
  | register (time : ℤ)
  | close (sid : Sid)
  | reap (now : ℤ)
  /-- The next signal of a run of `_kill`. -/
  | signal (job : ℕ)
  | exit (p : Proc)
  deriving DecidableEq

def BASE_PORT : ℕ := 6900

def port (display : ℕ) : ℕ := BASE_PORT + display

/-- The processes of a session, in the order in which they are started. -/
def spawned : List Program := [.Xvnc, .fluxbox, .hsetroot, .chromium]

def start : Broker := ⟨[], 0, none, [], []⟩

section Step

variable (maxSessions : ℕ) (maxSessionSeconds : ℤ) (s : Broker)

/-- Display 1 is the hub. -/
def freeDisplay : Option ℕ := (List.range' 2 maxSessions).find? fun n => n ∉ s.sessions.map Session.display

/-- The display that a call is given; the others wait for the lock, or are refused. -/
def assigns : Event → Option ℕ
  | .acquire _ => if s.opening.isSome || maxSessions ≤ s.sessions.length then none else freeDisplay maxSessions s
  | _ => none

/-- `_spawn` returns all that it starts but `hsetroot`. -/
def spawnNext (o : Opening) (program : Program) (next : List Program) : Broker :=
  let p : Proc := ⟨program, o.session.sid, o.session.display⟩
  { s with
    opening := some ⟨{ o.session with procs := if program = .hsetroot then o.session.procs else o.session.procs ++ [p] }, next⟩
    alive := s.alive ++ [p] }

def jobOf (r : Session) : Job := ⟨r.procs, r.procs⟩

def stale (now : ℤ) (r : Session) : Bool := maxSessionSeconds < now - r.started

/-- The sessions leave the table, and a run of `_kill` starts for each. -/
def remove (sel : Session → Bool) : Broker :=
  { s with sessions := s.sessions.filter (fun r => !sel r), jobs := s.jobs ++ (s.sessions.filter sel).map jobOf }

def signalNext (j : ℕ) (job : Job) : Broker :=
  match job.term, job.kill with
  | _ :: term, kill => { s with jobs := s.jobs.set j ⟨term, kill⟩ }
  | [], p :: kill => { s with jobs := s.jobs.set j ⟨[], kill⟩, alive := s.alive.filter (· ≠ p) }
  | [], [] => s

def step (e : Event) : Broker :=
  match e with
  | .acquire time =>
    match assigns maxSessions s e with
    | none => s
    | some display => { s with seq := s.seq + 1, opening := some ⟨⟨⟨time, s.seq + 1⟩, display, [], time⟩, spawned⟩ }
  | .spawn =>
    match s.opening with
    | some ⟨session, program :: next⟩ => spawnNext s ⟨session, program :: next⟩ program next
    | _ => s
  | .raise =>
    match s.opening with
    | some ⟨_, _ :: _⟩ => { s with opening := none }
    | _ => s
  | .register time =>
    match s.opening with
    | some ⟨session, []⟩ => { s with sessions := s.sessions ++ [{ session with started := time }], opening := none }
    | _ => s
  | .close sid => if s.opening.isSome then s else remove s fun r => r.sid = sid
  | .reap now => if s.opening.isSome then s else remove s (stale maxSessionSeconds now)
  | .signal j =>
    match s.jobs[j]? with
    | none => s
    | some job => signalNext s j job
  | .exit p => { s with alive := s.alive.filter (· ≠ p) }

def run (events : List Event) : Broker := events.foldl (step maxSessions maxSessionSeconds) start

end Step

end Captivo.Kasm
