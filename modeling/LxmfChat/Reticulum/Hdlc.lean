import LxmfChat.Base.Bytes

/-! The framing of packets on a byte stream: flags around each packet, and escapes inside it. -/

namespace LxmfChat.Hdlc

open Base

def FLAG : UInt8 := 0x7E
def ESC : UInt8 := 0x7D
def ESC_MASK : UInt8 := 0x20

def escape (b : UInt8) : Bytes := if b = FLAG ∨ b = ESC then [ESC, b ^^^ ESC_MASK] else [b]

def frame (data : Bytes) : Bytes := FLAG :: (data.flatMap escape ++ [FLAG])

/-- What has been read of the frame that is being received. -/
structure Deframer where
  buf : Bytes := []
  inFrame : Bool := false
  escaped : Bool := false
deriving DecidableEq, Repr

namespace Deframer

def pushByte (d : Deframer) (b : UInt8) : Deframer × Option Bytes :=
  if b = FLAG then
    if d.inFrame then
      -- The flag also opens the next frame, and an empty frame is only a sign of life.
      if d.buf ≠ [] then (⟨[], true, false⟩, some d.buf) else (⟨[], true, false⟩, none)
    else (⟨[], true, false⟩, none)
  else if d.inFrame then
    if b = ESC then ({ d with escaped := true }, none)
    else if d.escaped then (⟨d.buf ++ [b ^^^ ESC_MASK], true, false⟩, none)
    else ({ d with buf := d.buf ++ [b] }, none)
  else (d, none)

def push (d : Deframer) : Bytes → Deframer × List Bytes
  | [] => (d, [])
  | b :: rest =>
    let (d, finished) := d.pushByte b
    let (d, frames) := d.push rest
    (d, finished.toList ++ frames)

theorem masked {b : UInt8} (special : b = FLAG ∨ b = ESC) :
    b ^^^ ESC_MASK ≠ FLAG ∧ b ^^^ ESC_MASK ≠ ESC ∧ b ^^^ ESC_MASK ^^^ ESC_MASK = b := by
  rcases special with rfl | rfl <;> decide

theorem push_escape (buf : Bytes) (b : UInt8) (rest : Bytes) :
    push ⟨buf, true, false⟩ (escape b ++ rest) = push ⟨buf ++ [b], true, false⟩ rest := by
  by_cases special : b = FLAG ∨ b = ESC
  · obtain ⟨flag, esc, back⟩ := masked special
    have marker : ESC ≠ FLAG := by decide
    rw [escape, if_pos special]
    simp [push, pushByte, marker, flag, esc, back]
  · rw [escape, if_neg special]
    simp only [not_or] at special
    simp [push, pushByte, special.1, special.2]

theorem push_flatMap_escape (data rest : Bytes) : ∀ buf : Bytes,
    push ⟨buf, true, false⟩ (data.flatMap escape ++ rest) = push ⟨buf ++ data, true, false⟩ rest := by
  induction data with
  | nil => simp
  | cons b data ih =>
    intro buf
    rw [List.flatMap_cons, List.append_assoc, push_escape, ih, List.append_assoc]
    rfl

def ready : Deframer := ⟨[], true, false⟩

@[simp] theorem pushByte_flag (d : Deframer) : (d.pushByte FLAG).1 = ready := by
  -- A flag is never escaped, so what was received before it does not matter.
  rw [pushByte, if_pos rfl]
  split
  · split <;> rfl
  · rfl

theorem push_frame (d : Deframer) (data rest : Bytes) :
    d.push (frame data ++ rest)
      = ((ready.push rest).1, (d.pushByte FLAG).2.toList ++ [data].filter (· ≠ [])
          ++ (ready.push rest).2) := by
  -- The first flag opens the frame, and the packet is collected up to the second.
  have opened : d.push (frame data ++ rest)
      = ((ready.push (data.flatMap escape ++ (FLAG :: rest))).1,
        (d.pushByte FLAG).2.toList ++ (ready.push (data.flatMap escape ++ (FLAG :: rest))).2) := by
    simp [frame, push]
  rw [opened, ready, push_flatMap_escape, List.nil_append]
  by_cases empty : data = []
  · simp [push, pushByte, empty]
  · simp [push, pushByte, empty]

theorem push_cons (d : Deframer) (b : UInt8) (rest : Bytes) :
    d.push (b :: rest) = (((d.pushByte b).1.push rest).1,
      (d.pushByte b).2.toList ++ ((d.pushByte b).1.push rest).2) := rfl

theorem push_append (d : Deframer) (a b : Bytes) :
    d.push (a ++ b) = (((d.push a).1.push b).1, (d.push a).2 ++ ((d.push a).1.push b).2) := by
  -- The state is carried from byte to byte, so it stays quantified over.
  induction a generalizing d with
  | nil => rfl
  | cons byte rest ih =>
    simp only [List.cons_append, push_cons, ih, List.append_assoc]

def pushAll (d : Deframer) : List Bytes → Deframer × List Bytes
  | [] => (d, [])
  | chunk :: rest =>
    let (d, frames) := d.push chunk
    let (d, later) := d.pushAll rest
    (d, frames ++ later)

theorem pushAll_eq (d : Deframer) (chunks : List Bytes) : d.pushAll chunks = d.push chunks.flatten := by
  induction chunks generalizing d with
  | nil => rfl
  | cons chunk rest ih =>
    rw [List.flatten_cons, push_append, ← ih]
    rfl

theorem push_frames {d : Deframer} (idle : (d.pushByte FLAG).2 = none) (packets : List Bytes) :
    (d.push (packets.flatMap frame)).2 = packets.filter (· ≠ []) := by
  -- After each frame the deframer stands right behind a flag, where there is nothing to end.
  induction packets generalizing d with
  | nil => rfl
  | cons data rest ih =>
    have tail : (ready.push (rest.flatMap frame)).2 = rest.filter (· ≠ []) := ih rfl
    have split : (data :: rest).filter (· ≠ [])
        = [data].filter (· ≠ []) ++ rest.filter (· ≠ []) := List.filter_append [data] rest
    rw [List.flatMap_cons, push_frame, idle, tail, split]
    rfl

/--
Framing is a faithful stream code that finds its way back from any state.

However a stream of frames is cut into chunks, the packets come out in order, and empty frames
leave no trace. After any bytes at all, the next frame is received whole.
-/
theorem framing_faithful :
    (∀ packets chunks : List Bytes, chunks.flatten = packets.flatMap frame →
      (pushAll {} chunks).2 = packets.filter (· ≠ []))
    ∧ (∀ (d : Deframer) (a b : Bytes), (d.push (a ++ b)).2 = (d.push a).2 ++ ((d.push a).1.push b).2)
    ∧ ∀ (noise packet : Bytes), packet ≠ [] →
      ((push {} noise).1.push (frame packet)).2.getLast? = some packet := by
  refine ⟨?_, ?_, ?_⟩
  · intro packets chunks cut
    rw [pushAll_eq, cut]
    exact push_frames rfl packets
  · intro d a b
    rw [push_append]
  · -- Only the first flag of the frame meets what the noise has left behind.
    intro noise packet nonempty
    have framed := push_frame (push {} noise).1 packet []
    rw [List.append_nil] at framed
    rw [framed]
    simp [push, nonempty]

end Deframer

end LxmfChat.Hdlc
