import TangPingOS.Block
import TangPingOS.Lib.Shared

/-! # The virtio block driver

`kernel/virtio_blk.c`, together with the device behind it. The driver has one request at a
time: all requests use descriptors 0 to 2, one header, one data buffer and one status byte.
The device takes a request off the ring of available ones at any time after it was put
there, reading its header, and completes it at any later time, moving the data, writing the
status byte and one element of the used ring. It may do so between any two accesses of the
driver. The memory copies of 512 bytes are one access each. Port numbers, the features and
the status register of the device are left out, as are log lines.
-/

namespace TangPingOS.Virtio

open Lib

def virtqDescNext : Nat := 1
def virtqDescWrite : Nat := 2

def virtioBlkIn : Nat := 0
def virtioBlkOut : Nat := 1
def virtioBlkOk : UInt8 := 0

def dmaHeaderOffset : Nat := 0
def dmaDataOffset : Nat := 64
def dmaStatusOffset : Nat := 576

/-- `struct virtq_desc`. -/
structure VirtqDesc where
  addr : Nat
  len : Nat
  flags : Nat
  next : Nat

/-- `struct virtq_used_elem`. -/
structure VirtqUsedElem where
  id : Nat
  len : Nat

/-- `struct virtio_blk_outhdr`. -/
structure VirtioBlkOuthdr where
  type : Nat
  ioprio : Nat
  sector : Nat

/-- A request as the device has taken it. -/
structure DeviceRequest where
  /-- The first descriptor. -/
  id : Nat
  type : Nat
  sector : Nat

/-- A request that the device has carried out, with the data it moved. -/
structure Served where
  type : Nat
  sector : Nat
  data : Sector

/-- `struct virtio_blk_device`, the pages it shares with the device, and the device. -/
structure VirtioBlk where
  queueSize : Nat
  dmaPhys : Nat
  lastUsedIdx : UInt16
  -- the queue
  desc : Nat → VirtqDesc
  availIdx : UInt16
  availRing : Nat → Nat
  usedIdx : UInt16
  usedRing : Nat → VirtqUsedElem
  -- the DMA page
  header : VirtioBlkOuthdr
  data : Sector
  status : UInt8
  -- the device
  lastAvailIdx : UInt16
  inflight : List DeviceRequest
  disk : Nat → Sector
  served : List Served

/-! ## The device -/

inductive DeviceAct where
  /-- Take the next available request. -/
  | fetch
  /-- Complete one of the requests that were taken. -/
  | complete (index : Nat) (status : UInt8)

namespace VirtioBlk

/-- The request in a chain of descriptors: a header, the data and a status byte. -/
def chainAt (d : VirtioBlk) (head : Nat) : Option DeviceRequest :=
  let first := d.desc head
  let second := d.desc first.next
  let third := d.desc second.next
  if first.addr = d.dmaPhys + dmaHeaderOffset ∧ first.len = 16 ∧ first.flags = virtqDescNext ∧
      second.addr = d.dmaPhys + dmaDataOffset ∧ second.len = 512 ∧
      second.flags = virtqDescNext + (if d.header.type = virtioBlkIn then virtqDescWrite else 0) ∧
      third.addr = d.dmaPhys + dmaStatusOffset ∧ third.len = 1 ∧ third.flags = virtqDescWrite then
    some { id := head, type := d.header.type, sector := d.header.sector }
  else none

def fetch (d : VirtioBlk) : VirtioBlk :=
  if d.lastAvailIdx = d.availIdx then d
  else
    { d with
      lastAvailIdx := d.lastAvailIdx + 1
      inflight := d.inflight ++ (d.chainAt (d.availRing (d.lastAvailIdx.toNat % d.queueSize))).toList }

def serve (r : DeviceRequest) (d : VirtioBlk) : VirtioBlk :=
  if r.type = virtioBlkIn then
    { d with
      data := d.disk r.sector
      served := d.served ++ [{ type := r.type, sector := r.sector, data := d.disk r.sector }] }
  else
    { d with
      disk := Function.update d.disk r.sector d.data
      served := d.served ++ [{ type := r.type, sector := r.sector, data := d.data }] }

def finish (r : DeviceRequest) (status : UInt8) (d : VirtioBlk) : VirtioBlk :=
  { d with
    status := status
    usedRing := Function.update d.usedRing (d.usedIdx.toNat % d.queueSize)
      { id := r.id, len := if r.type = virtioBlkIn then 513 else 1 }
    usedIdx := d.usedIdx + 1 }

def act : DeviceAct → VirtioBlk → VirtioBlk
  | .fetch, d => d.fetch
  | .complete index status, d =>
    match d.inflight[index]? with
    | none => d
    | some r =>
      let rest := { d with inflight := d.inflight.eraseIdx index }
      (if status = virtioBlkOk then rest.serve r else rest).finish r status

def Quiet (d : VirtioBlk) : Prop := d.inflight = [] ∧ d.lastAvailIdx = d.availIdx

end VirtioBlk

/-! ## The driver -/

abbrev Driver := Shared VirtioBlk DeviceAct

def setDesc (i : Nat) (f : VirtqDesc → VirtqDesc) (d : VirtioBlk) : VirtioBlk :=
  { d with desc := Function.update d.desc i (f (d.desc i)) }

def setHeader (f : VirtioBlkOuthdr → VirtioBlkOuthdr) (d : VirtioBlk) : VirtioBlk :=
  { d with header := f d.header }

/-- What `virtio_blk_transfer` stores before the request is made available. -/
def requestStores (lba : Nat) (write : Bool) (buffer : Sector) : List (VirtioBlk → VirtioBlk) :=
  [fun d => { d with data := if write then buffer else .zero },
   setHeader fun h => { h with type := if write then virtioBlkOut else virtioBlkIn },
   setHeader fun h => { h with ioprio := 0 },
   setHeader fun h => { h with sector := lba },
   fun d => { d with status := 0xff },
   fun d => setDesc 0 (fun e => { e with addr := d.dmaPhys + dmaHeaderOffset }) d,
   setDesc 0 fun e => { e with len := 16 },
   setDesc 0 fun e => { e with flags := virtqDescNext },
   setDesc 0 fun e => { e with next := 1 },
   fun d => setDesc 1 (fun e => { e with addr := d.dmaPhys + dmaDataOffset }) d,
   setDesc 1 fun e => { e with len := 512 },
   setDesc 1 fun e => { e with flags := virtqDescNext + (if write then 0 else virtqDescWrite) },
   setDesc 1 fun e => { e with next := 2 },
   fun d => setDesc 2 (fun e => { e with addr := d.dmaPhys + dmaStatusOffset }) d,
   setDesc 2 fun e => { e with len := 1 },
   setDesc 2 fun e => { e with flags := virtqDescWrite },
   setDesc 2 fun e => { e with next := 0 },
   fun d => { d with availRing := Function.update d.availRing (d.availIdx.toNat % d.queueSize) 0 }]

def makeAvailable (d : VirtioBlk) : VirtioBlk := { d with availIdx := d.availIdx + 1 }

/-- Those stores, and the write to the notification register, which only wakes the device. -/
def transferStores (lba : Nat) (write : Bool) (buffer : Sector) : List (VirtioBlk → VirtioBlk) :=
  requestStores lba write buffer ++ [makeAvailable, id]

def spinLimit : Nat := 100000000

def usedMoved (d : VirtioBlk) : Bool := d.usedIdx != d.lastUsedIdx

/-- What follows once the used index has moved: the element, the interrupt register, the status byte
    and the data are read in turn. -/
def takeCompletion (write : Bool) (buffer : Sector) (s : Driver) : Option Sector × Driver :=
  let s := s.step VirtioBlk.act
  let usedId := (s.state.usedRing (s.state.lastUsedIdx.toNat % s.state.queueSize)).id
  let s := Shared.step VirtioBlk.act { s with state := { s.state with lastUsedIdx := s.state.lastUsedIdx + 1 } }
  if usedId ≠ 0 then (none, s)
  else
    let s := s.step VirtioBlk.act
    if s.state.status ≠ virtioBlkOk then (none, s)
    else
      let s := s.step VirtioBlk.act
      (some (if write then buffer else s.state.data), s)

/-- `virtio_blk_transfer`: what is in the buffer on the result 0, none for -1. -/
def virtioBlkTransfer (lba : Nat) (write : Bool) (buffer : Sector) (s : Driver) : Option Sector × Driver :=
  match (s.stores VirtioBlk.act (transferStores lba write buffer)).poll VirtioBlk.act usedMoved spinLimit with
  | (false, s) => (none, s)
  | (true, s) => takeCompletion write buffer s

/-- The pages as `virtio_blk_init` clears them. -/
def virtioBlkInit (queueSize dmaPhys : Nat) (disk : Nat → Sector) : VirtioBlk where
  queueSize := queueSize
  dmaPhys := dmaPhys
  lastUsedIdx := 0
  desc := fun _ => { addr := 0, len := 0, flags := 0, next := 0 }
  availIdx := 0
  availRing := fun _ => 0
  usedIdx := 0
  usedRing := fun _ => { id := 0, len := 0 }
  header := { type := 0, ioprio := 0, sector := 0 }
  data := .zero
  status := 0
  lastAvailIdx := 0
  inflight := []
  disk := disk
  served := []

/-- The states that calls of `virtio_blk_transfer` lead to, whatever the device does during them and
    between them. The first call is the read by which `virtio_blk_init` probes the device. -/
inductive VirtioRun : VirtioBlk → Prop
  | init (queueSize dmaPhys : Nat) (disk : Nat → Sector) (enough : 3 ≤ queueSize) :
      VirtioRun (virtioBlkInit queueSize dmaPhys disk)
  | device {d : VirtioBlk} (before : VirtioRun d) (a : DeviceAct) : VirtioRun (d.act a)
  | transfer {d : VirtioBlk} (before : VirtioRun d) (schedule : Nat → List DeviceAct) (lba : Nat) (write : Bool)
      (buffer : Sector) : VirtioRun (virtioBlkTransfer lba write buffer ⟨d, schedule⟩).2.state

/-- The call's result is that of its own request: the device carried it out during the call, and holds
    the data at the block. -/
structure Belongs (lba : Nat) (write : Bool) (data : Sector) (before after : VirtioBlk) : Prop where
  held : after.disk lba = data
  carriedOut : ∃ log, after.served = before.served ++ log ∧
    { type := if write then virtioBlkOut else virtioBlkIn, sector := lba, data := data } ∈ log

end TangPingOS.Virtio
