import LogicalTable.Container.Source
import LogicalTable.Table.Basic

/-! Files of batches, given as the messages that they hold. A container starts with a magic word;
messages with the fields and each of the batches follow, and last a footer that tells where they
are. -/
namespace LogicalTable

inductive ContainerLayout where
  /-- All messages, which start at an aligned place behind the magic, and the footer. -/
  | finished
  /-- Messages right behind the magic, and no footer yet. -/
  | streamed
  /-- Messages behind other bytes than the magic. -/
  | unmarked
  deriving DecidableEq, Repr

structure Container where
  layout : ContainerLayout
  arraySchema : ArraySchema
  batches : List Batch

inductive FileContent where
  | absent
  | directory
  | bytes (bs : List UInt8)
  | container (c : Container)

namespace Container

def magic : List UInt8 := [0x41, 0x52, 0x52, 0x4f, 0x57, 0x31]

/-- The bytes before the first message of a streamed container. -/
def leadSize : Nat := 8

/-- The bytes behind the footer: its length and the magic. -/
def trailerSize : Nat := 10

def number (bs : List UInt8) : Nat := bs.foldr (fun b n => b.toNat + 256 * n) 0

/-- How reading a block fails whose length, a signed number, stands before it: lengths are not
negative, blocks are not cut off, and these bytes form no message. -/
def blockFault (length available : Nat) : ArrowFault :=
  if length < 0x80000000 && available < length then .io else .parser

def footerFault (bs : List UInt8) : ArrowFault :=
  if bs.length < trailerSize then .io
  else
    let trailer := bs.drop (bs.length - trailerSize)
    if trailer.drop 4 ≠ magic then .parser
    else blockFault (number (trailer.take 4)) (bs.length - trailerSize)

/-- How reading bytes as messages fails. A mark may stand before the length of the first one. -/
def streamFault (bs : List UInt8) : ArrowFault :=
  let rest := if bs.take 4 = [0xff, 0xff, 0xff, 0xff] then bs.drop 4 else bs
  if rest.length < 4 then .io else blockFault (number (rest.take 4)) (rest.length - 4)

def readFooter : FileContent → Except Error (ArraySchema × List Batch)
  | .absent => .error (.file .absent)
  | .directory => .error (.arrow .io)
  | .bytes bs => .error (.arrow (footerFault bs))
  | .container c =>
    match c.layout with
    | .finished => .ok (c.arraySchema, c.batches)
    | .streamed | .unmarked => .error (.arrow .parser)

/-- Fields and batches as far as messages follow the magic. The messages of a finished container
do not stand there. -/
def readStream (path : String) : FileContent → Except Error (ArraySchema × List Batch)
  | .absent => .error (.file .absent)
  | .directory => .error (.file .directory)
  | .bytes bs =>
    if bs.length < leadSize then .error (.file .shortRead)
    else if bs.take magic.length ≠ magic then .error (.field (.notContainer path))
    else .error (.arrow (streamFault (bs.drop leadSize)))
  | .container c =>
    match c.layout with
    | .finished => .error (.arrow .parser)
    | .streamed => .ok (c.arraySchema, c.batches)
    | .unmarked => .error (.field (.notContainer path))

end Container

namespace FileContent

def text : FileContent → Except FileFault String
  | absent => .error .absent
  | directory => .error .directory
  | bytes bs =>
    match String.fromUTF8? ⟨bs.toArray⟩ with
    | some s => .ok s
    | none => .error .notUtf8
  | container _ => .error .notUtf8

end FileContent

def Table.read (source : FileSource) (content : FileContent) (r : Registry)
    (options : TableOptions) : Except Error Table := do
  let (arraySchema, batches) ←
    if source.footerRequired then Container.readFooter content
    else Container.readStream source.path content
  Table.ofBatches arraySchema batches r options

def Schema.read (content : FileContent) (r : Registry) : Except Error Schema := do
  let text ← orFail .file content.text
  orFail .serialization (Exchange.importText text r)

end LogicalTable
