import CarFirmware.Spec.System

/-! `handle_message.c`: the message thread, the `run_cmds_task`s that restart the three
tracks, and the documents they read. The message thread is caller 0 of the players,
the `run_cmds_task` number `k` is caller `k + 1`. -/

namespace Car

open Handshake

inductive Var where
  | v1 | v2 | v3 | v4
  deriving DecidableEq

inductive Key where
  | T
  | V (x : Var)
  | m1d | m1s | m2d | m2s
  | k
  | fileid
  deriving DecidableEq

/-- The fields of a `cJSON` item that are read. -/
structure Item where
  isNumber : Bool
  valueint : ℤ
  valuestring : Option CStr

/-- A parsed document: what `cJSON_GetObjectItem` returns for each key. -/
abbrev Json := Key → Option Item

/-- A document under its number: documents are numbered in the order of parsing. -/
structure Root where
  doc : ℕ
  json : Json

/-- A pointer to an item of a document. -/
structure Ref where
  doc : ℕ
  item : Item

def Ref.valuestring (r : Ref) : Option Str := r.item.valuestring.map (⟨r.doc, ·⟩)

def M_RUN : ℤ := 0
def M_STOP : ℤ := 1
def S_PLAY : ℤ := 4
def C_CMDS : ℤ := 8
def C_STOP : ℤ := 9

/-- The next statement of `handle_message`, with the local `root` while it is not `NULL`;
`ops` are the drive statements still to execute. From `delete` to `ledRun` it is inside
`run_cmds`; `stopped` is the end of the branch for `C_STOP`. -/
inductive MainPc where
  | idle
  | type (r : Root)
  | mRun (ops : List PwmOp) (r : Root)
  | key (r : Root)
  | play (fileid : ℤ) (r : Root)
  | mStop (ops : List PwmOp) (r : Root)
  | cCmds (r : Root)
  | delete (r : Root)
  | setRoot (r : Root)
  | item (x : Var) (r : Root)
  | nullTest
  | flagOn
  | notesRun
  | motorRun
  | ledRun
  | cStop (r : Root)
  | motorStop (r : Root)
  | ledStop (r : Root)
  | notesStop (r : Root)
  | stopped (r : Root)
  | out (r : Root)

/-- The next statement of `run_cmds_task`; `returned` is the `return` without `vTaskDelete`. -/
inductive RestartPc where
  | test
  | returned
  | print
  | isLoop
  | notesRun
  | motorRun
  | ledRun
  | clear
  | delete
  | ended
  deriving DecidableEq

/-- `freed` are the arguments of `cJSON_Delete`, `parsed` counts the documents. -/
structure Firmware where
  sys : System
  main : MainPc
  restart : ℕ → RestartPc
  runCmdsRoot : Option ℕ
  rV : Var → Option Ref
  lastKey : ℤ
  parsed : ℕ
  freed : List ℕ

/-- The test of `type` and the `switch`, with the tests at the head of each branch. -/
def dispatch (r : Root) : MainPc :=
  match r.json .T with
  | none => .out r
  | some type =>
    if type.isNumber = false then .out r
    else if type.valueint = M_RUN then
      match r.json .m1d, r.json .m2d, r.json .m1s, r.json .m2s with
      | some d1, some d2, some s1, some s2 =>
        .mRun [.enable, .run .A s1.valueint d1.valueint, .run .B s2.valueint d2.valueint] r
      | _, _, _, _ => .out r
    else if type.valueint = M_STOP then .mStop carStop r
    else if type.valueint = S_PLAY then
      match r.json .fileid with
      | none => .out r
      | some file => .play file.valueint r
    else if type.valueint = C_CMDS then .cCmds r
    else if type.valueint = C_STOP then .cStop r
    else .out r

/-- The sound that the value of `k` starts. -/
def keySound (key : ℤ) : Option ℤ :=
  if key = 1 then some 0
  else if key = 2 then some 1
  else if key = 3 then some 0xF
  else none

namespace Firmware

def init : Firmware where
  sys := System.init
  main := .idle
  restart _ := .test
  runCmdsRoot := none
  rV _ := none
  lastKey := 0
  parsed := 0
  freed := []

/-- Thread `c` is in no call: it executes its own next statement. -/
def ready (s : Firmware) (c : ℕ) : Bool := Worker.all.all fun w => ((s.sys.task w).call c).isIdle

/-- A statement that is a step of the system, and what else it does. -/
def exec (s : Firmware) (a : SysAct) (f : Firmware → Firmware) : Option Firmware :=
  (s.sys.step a).map fun sys => f { s with sys := sys }

/-- Reading through `r_vx`; a `NULL` pointer aborts. -/
def deref (s : Firmware) (x : Var) (f : Ref → Option Firmware) : Option Firmware :=
  match s.rV x with
  | none => s.exec .abort id
  | some r => f r

def goMain (pc : MainPc) (s : Firmware) : Firmware := { s with main := pc }

def goRestart (k : ℕ) (pc : RestartPc) (s : Firmware) : Firmware :=
  { s with restart := Function.update s.restart k pc }

def mainStep (s : Firmware) : Option Firmware :=
  match s.main with
  | .idle => none
  | .type r => some (s.goMain (dispatch r))
  | .mRun (op :: ops) r => s.exec (.drive op) (goMain (.mRun ops r))
  | .mRun [] r => some (s.goMain (.key r))
  | .key r =>
    match r.json .k with
    | none => some (s.goMain (.out r))
    | some key =>
      if s.lastKey = key.valueint then some (s.goMain (.out r))
      else some { s with
        lastKey := key.valueint
        main := match keySound key.valueint with
          | none => .out r
          | some fileid => .play fileid r }
  | .play fileid r => s.exec (soundPlayMp3Run 0 fileid) (goMain (.out r))
  | .mStop (op :: ops) r => s.exec (.drive op) (goMain (.mStop ops r))
  | .mStop [] r => some (s.goMain (.out r))
  | .cCmds r => some (s.goMain (if s.sys.hw.runCmdsIsRun then .out r else .delete r))
  | .delete r => some { s with main := .setRoot r, freed := s.freed ++ s.runCmdsRoot.toList }
  | .setRoot r => some { s with main := .item .v1 r, runCmdsRoot := some r.doc }
  | .item x r => some { s with
      main := match x with
        | .v1 => .item .v2 r
        | .v2 => .item .v3 r
        | .v3 => .item .v4 r
        | .v4 => .nullTest
      rV := Function.update s.rV x ((r.json (.V x)).map (⟨r.doc, ·⟩)) }
  | .nullTest => some (s.goMain
      (if (s.rV .v1).isNone || (s.rV .v2).isNone || (s.rV .v3).isNone || (s.rV .v4).isNone
        then .idle else .flagOn))
  | .flagOn => s.exec (.setRunCmdsIsRun true) (goMain .notesRun)
  | .notesRun => s.deref .v2 fun r => s.exec (playNotesRun 0 r.valuestring) (goMain .motorRun)
  | .motorRun => s.deref .v3 fun r => s.exec (motorRunCmds 0 r.valuestring) (goMain .ledRun)
  | .ledRun => s.deref .v4 fun r => s.exec (ledRunCmds 0 r.valuestring) (goMain .idle)
  | .cStop r => s.exec (.setRunCmdsIsRun false) (goMain (.motorStop r))
  | .motorStop r => s.exec (motorRunCmdsStop 0) (goMain (.ledStop r))
  | .ledStop r => s.exec (ledRunCmdsStop 0) (goMain (.notesStop r))
  | .notesStop r => s.exec (playNotesStop 0) (goMain (.stopped r))
  | .stopped r => some (s.goMain (.out r))
  | .out r => some { s with main := .idle, freed := s.freed ++ [r.doc] }

def restartStep (s : Firmware) (k : ℕ) : Option Firmware :=
  match s.restart k with
  | .test => some (s.goRestart k (if s.sys.hw.runCmdsIsRun then .print else .returned))
  | .returned => s.exec .abort id
  | .print => s.deref .v1 fun _ => some (s.goRestart k .isLoop)
  | .isLoop => s.deref .v1 fun r =>
      some (s.goRestart k (if r.item.valueint ≠ 0 then .notesRun else .clear))
  | .notesRun => s.deref .v2 fun r =>
      s.exec (playNotesRun (k + 1) r.valuestring) (goRestart k .motorRun)
  | .motorRun => s.deref .v3 fun r =>
      s.exec (motorRunCmds (k + 1) r.valuestring) (goRestart k .ledRun)
  | .ledRun => s.deref .v4 fun r =>
      s.exec (ledRunCmds (k + 1) r.valuestring) (goRestart k .delete)
  | .clear => s.exec (.setRunCmdsIsRun false) (goRestart k .delete)
  | .delete => some (s.goRestart k .ended)
  | .ended => none

end Firmware

/-- `receive` is the call of `handle_message`, with what `cJSON_Parse` returns. -/
inductive FwAct where
  | receive (json : Option Json)
  | main
  | restart (k : ℕ)
  | tick (n : ℕ)
  | call (w : Worker) (c : ℕ)
  | task (w : Worker) (i : ℕ) (e : w.Env)

namespace Firmware

def receive (s : Firmware) (json : Option Json) : Option Firmware :=
  match s.main, json with
  | .idle, none => some s
  | .idle, some json => some { s with main := .type ⟨s.parsed, json⟩, parsed := s.parsed + 1 }
  | _, _ => none

def step (s : Firmware) (a : FwAct) : Option Firmware :=
  if s.sys.hw.halted then none
  else match a with
    | .receive json => if s.ready 0 then s.receive json else none
    | .main => if s.ready 0 then s.mainStep else none
    | .restart k =>
      if k < s.sys.hw.restarts ∧ s.ready (k + 1) = true then s.restartStep k else none
    | .tick n => s.exec (.tick n) id
    | .call w c => s.exec (.task w (.call c)) id
    | .task w i e => s.exec (.task w (.task i e)) id

end Firmware

end Car
