import LiteKernel.Drivers.Virtqueue

/-!
# Commands of `drivers/scsi/virtio_scsi.c`

`virtio_scsi_submit` puts a request on the queue and polls the used ring until an entry
comes or the time is over. One command is in progress at a time, so the call is cut into the
submission and the rounds of the loop of `virtqueue_wait`; between any two of these steps the
device may write responses and return chains that it has been given. The outcome of the two
tests of the clock is part of the round. The bytes of a request and of its data are left out.

Main results:

- Definition `step`: a step of the driver or of the device.
-/

namespace LiteKernel.Drivers

open Lib

/-- `SCSI_STATUS_GOOD`. -/
abbrev statusGood : UInt8 := 0x00

/-- `SCSI_STATUS_CHECK_CONDITION`. -/
abbrev statusCheckCondition : UInt8 := 0x02

/-- `VIRTIO_SCSI_CDB_DEFAULT_SIZE`. -/
abbrev cdbDefaultSize : Nat := 32

/-- `SCSI_SENSE_BUFFERSIZE`. -/
abbrev senseBufferSize : Nat := 96

/-- `enum dma_data_direction`. -/
inductive DmaDataDirection where
  | bidirectional
  | toDevice
  | fromDevice
  | none
  deriving DecidableEq

/-- `struct scsi_cmnd` as far as a submission reads it; no buffer is the address zero. -/
structure ScsiCmnd where
  hasDevice : Bool
  cmdLen : Nat
  dataDirection : DmaDataDirection
  requestBuffer : Nat
  requestBufflen : UInt32

/-- `struct virtio_scsi_cmd_resp`. -/
structure CmdResp where
  senseLen : UInt32
  status : UInt8
  sense : Nat → UInt8

/-- The response buffer after `memset`. -/
def CmdResp.zero : CmdResp where
  senseLen := 0
  status := 0
  sense _ := 0

/-- A request in progress: its number, its chain and the address of its response. -/
structure Request where
  tag : Nat
  head : UInt16
  ids : List UInt16
  resp : Nat

/-- What a command is told: the status and the sense data. -/
structure Report where
  tag : Nat
  result : UInt8
  sense : List UInt8

/-- What a device wrote when it completed a chain. -/
structure Completion where
  tag : Nat
  status : UInt8

/-- Where the driver is. -/
inductive Phase where
  | idle
  | waiting (r : Request)
  | stuck

/-- The request queue, the response buffers, and what the device has and has done. -/
structure Scsi where
  vq : Virtqueue
  resp : Nat → CmdResp
  phase : Phase
  /-- The number of the next command. -/
  nextTag : Nat
  /-- The requests that the device has and has not completed. -/
  pending : List Request
  /-- The requests that the device has completed and the driver has not taken back. -/
  returned : List Request
  completions : List Completion
  reports : List Report

namespace Scsi

/-- A device with an empty request queue. -/
def start (num : UInt16) : Scsi where
  vq := Virtqueue.vringNew num
  resp _ := CmdResp.zero
  phase := .idle
  nextTag := 0
  pending := []
  returned := []
  completions := []
  reports := []

/-- The buffers of a request: request, data to the device, response, data from the device. -/
def buffers (sc : ScsiCmnd) (req resp : Nat) : List VirtqueueBuf :=
  let data (dir : DmaDataDirection) (write : Bool) : List VirtqueueBuf :=
    if sc.requestBuffer ≠ 0 ∧ sc.requestBufflen ≠ 0 ∧ sc.dataDirection = dir then
      [{ addr := sc.requestBuffer, len := sc.requestBufflen, write := write }]
    else []
  [{ addr := req, len := 51, write := false }] ++ data .toDevice false ++
    [{ addr := resp, len := 108, write := true }] ++ data .fromDevice true

/-- The descriptors that a walk of a chain comes by. -/
def walk (vq : Virtqueue) : Nat → UInt16 → List UInt16
  | 0, _ => []
  | fuel + 1, i => if i = chainEnd then [] else i :: walk vq fuel (vq.chainNext i)

/--
`virtio_scsi_submit` up to the wait; `req` and `resp` are what `kmalloc`
returns. A call that fails changes nothing.
-/
def submit (s : Scsi) (sc : ScsiCmnd) (req resp : Option Nat) : Scsi :=
  match s.phase with
  | .idle =>
      if sc.hasDevice = false ∨ sc.cmdLen > cdbDefaultSize then s
      else
        match req, resp with
        | some req, some resp =>
            match s.vq.addBuf (buffers sc req resp) with
            | none => { s with phase := .stuck }
            | some (none, vq) => { s with vq := vq }
            | some (some head, vq) =>
                let r : Request :=
                  { tag := s.nextTag, head := head, ids := walk vq 65536 head, resp := resp }
                { s with
                  vq := vq
                  resp := Function.update s.resp resp CmdResp.zero
                  phase := .waiting r
                  nextTag := s.nextTag + 1
                  pending := s.pending ++ [r] }
        | _, _ => s
  | _ => s

/-- The device completes the request `tag`, if it has it, with the response `c`. -/
def complete (s : Scsi) (tag : Nat) (c : CmdResp) : Scsi :=
  match s.pending.find? fun r => r.tag == tag with
  | none => s
  | some r =>
      { s with
        vq := s.vq.pushUsed r.head
        resp := Function.update s.resp r.resp c
        pending := s.pending.filter fun q => q.tag != tag
        returned := s.returned ++ [r]
        completions := { tag := tag, status := c.status } :: s.completions }

/-- The sense data that the command gets. -/
def CmdResp.senseData (c : CmdResp) : List UInt8 :=
  if c.senseLen ≠ 0 then (List.range (min c.senseLen.toNat senseBufferSize)).map c.sense else []

/-- The end of `virtio_scsi_submit`: the chain `head` is freed and the command told. -/
def finish (s : Scsi) (head : UInt16) (report : Report) : Scsi :=
  match s.vq.freeChain head with
  | none => { s with phase := .stuck }
  | some vq => { s with vq := vq, phase := .idle, reports := report :: s.reports }

/-- A round of the loop of `virtqueue_wait`; `expired` says whether the time is over. -/
def poll (s : Scsi) (expired : Bool) : Scsi :=
  match s.phase with
  | .waiting r =>
      match s.vq.getBuf with
      | some (usedHead, vq) =>
          let c := s.resp r.resp
          finish { s with vq := vq, returned := s.returned.tail } usedHead
            { tag := r.tag, result := c.status, sense := CmdResp.senseData c }
      | none =>
          if expired then
            finish s r.head { tag := r.tag, result := statusCheckCondition, sense := [] }
          else s
  | _ => s

/-- What can happen. -/
inductive Action where
  | submit (sc : ScsiCmnd) (req resp : Option Nat)
  | complete (tag : Nat) (c : CmdResp)
  | poll (expired : Bool)

def step (s : Scsi) : Action → Scsi
  | .submit sc req resp => s.submit sc req resp
  | .complete tag c => s.complete tag c
  | .poll expired => s.poll expired

end Scsi
end LiteKernel.Drivers
