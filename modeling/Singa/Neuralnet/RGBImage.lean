import Singa.Base.Access
import Singa.Neuralnet.LayerBlob
import Singa.Neuralnet.Net

/-!
# `RGBImageLayer`

Every record of a batch is parsed into its slot of the data blob: directly, or
by way of a raw image that is cropped and mirrored. The slot has the size after
cropping, and a record is as large as it is before. All accesses are recorded
with the record they are made for. The tensors of `mshadow` are what its CPU
code makes of them: rows of an allocated one are padded to sixteen bytes.
-/

namespace Singa
set_option autoImplicit false

variable {α : Type}

/-- `SingleLabelImageRecord`, less its label; a pixel is a byte. -/
structure ImageRecord (α : Type) where
  shape : List Nat
  pixel : List (Fin 256)
  data : List α

structure RGBImageLayer (α : Type) where
  scale : α
  cropsize : Nat
  mirror : Bool
  data : LayerBlob α
  mean : LayerBlob α

/-- The buffers of `ParseRecords`. -/
inductive ImageBuffer where
  | data
  | rawImage
  | cropedImage
  | mean
  deriving DecidableEq, Repr

/-- A part of `ParseRecords`; the tag is the record, and `none` for the whole batch. -/
abbrev ImageProg (α : Type) := Access.Prog Abort ImageBuffer (Option Nat) α

/-- The extent of an image: channels, height and width. -/
@[ext] structure Extent where
  channels : Nat
  height : Nat
  width : Nat
  deriving DecidableEq, Repr

namespace Extent

def size (e : Extent) : Nat := e.channels * e.height * e.width

/-- `AllocSpace`: the length of a row when it is padded. -/
def pitch (e : Extent) : Nat := (e.width * 4 + 15) / 16 * 16 / 4

/-- `AllocSpace`: the elements that are allocated. -/
def allocated (e : Extent) : Nat := e.channels * e.height * e.pitch

/-- The extent after cropping; 0 is no cropping. -/
def croped (e : Extent) (cropsize : Nat) : Extent :=
  ⟨e.channels, if cropsize ≠ 0 then cropsize else e.height, if cropsize ≠ 0 then cropsize else e.width⟩

end Extent

/-- A tensor of three dimensions: where it lies and how far its rows are apart. -/
structure Image where
  extent : Extent
  buffer : ImageBuffer
  base : Nat
  stride : Nat

namespace Image

/-- The place of column `x` of row `y`, the rows of all channels counted through. -/
def place (image : Image) (y x : Nat) : Nat := image.base + (y * image.stride + x)

/-- `Plan<Tensor>::Eval`. -/
def eval (image : Image) (tag : Option Nat) (y x : Nat) : ImageProg α α :=
  Access.Prog.read .range tag image.buffer (image.place y x)

/-- `MapPlan`: the assignment of an expression of the given extent. -/
def assign (image : Image) (tag : Option Nat) (extent : Extent) (expr : Nat → Nat → ImageProg α α) :
    ImageProg α Unit :=
  if extent ≠ image.extent then Access.Prog.fail .tensorShape
  else forM (List.range (image.extent.channels * image.extent.height)) fun y =>
    forM (List.range image.extent.width) fun x => do
      let v ← expr y x
      Access.Prog.write .range tag image.buffer (image.place y x) v

/-- `image = mirror(source)`. -/
def assignMirror (image : Image) (tag : Option Nat) (source : Image) : ImageProg α Unit :=
  image.assign tag source.extent fun y x => source.eval tag y (source.extent.width - x - 1)

/-- `image = crop(source, Shape2(cropsize, cropsize), hoff, woff)`. -/
def assignCrop (image : Image) (tag : Option Nat) (source : Image) (cropsize hoff woff : Nat) : ImageProg α Unit :=
  if source.extent.height < cropsize ∨ source.extent.width < cropsize then Access.Prog.fail .tensorShape
  else image.assign tag ⟨source.extent.channels, cropsize, cropsize⟩ fun y x =>
    source.eval tag (y / cropsize * source.extent.height + (y % cropsize + hoff)) (x + woff)

end Image

/-- `rand() % n`, for the `int` `n`. -/
def randMod (draw : Nat) (n : Int) : Run Int := if n = 0 then .error .divZero else .ok ((draw : Int).tmod n)

namespace RGBImageLayer

/-- `RGBImageLayer::Setup`, for the shape of the sample record and the values of the mean file, if there is one. -/
def setup [Zero α] (scale : α) (cropsize : Nat) (mirror : Bool) (batchsize : Nat) (sample : List Nat)
    (meanfile : Option (List α)) : Run (RGBImageLayer α) :=
  match sample with
  | [channels, height, width] => do
    let height := if cropsize ≠ 0 then cropsize else height
    let width := if cropsize ≠ 0 then cropsize else width
    let data ← LayerBlob.fresh [batchsize, channels, height, width]
    let mean ← LayerBlob.fresh [channels, height, width]
    match meanfile with
    | none => return ⟨scale, cropsize, mirror, data, mean⟩
    | some values =>
      if mean.count ≠ values.length then .error .meanSize
      else
        let mean ← mean.store mean.count values
        return ⟨scale, cropsize, mirror, data, mean⟩
  | _ => .error .imageShape

variable [Field α] [DecidableEq α]

/-- The pixels or the floats of a record, from `dptr` on. -/
def copyRecord (tag : Option Nat) (record : ImageRecord α) (dptr : ImageBuffer) (base : Nat) : ImageProg α Unit :=
  if record.pixel.length ≠ 0 then
    forM record.pixel.zipIdx fun (byte, i) => Access.Prog.write .range tag dptr (base + i) ((byte : Nat) : α)
  else forM record.data.zipIdx fun (v, i) => Access.Prog.write .range tag dptr (base + i) v

/-- The mean is taken off, from `dptr` on. -/
def subtractMean (tag : Option Nat) (count : Nat) (dptr : ImageBuffer) (base : Nat) : ImageProg α Unit :=
  forM (List.range count) fun i => do
    let m ← Access.Prog.read .range tag .mean i
    let v ← Access.Prog.read .range tag dptr (base + i)
    Access.Prog.write .range tag dptr (base + i) (v - m)

/-- The slot of record `rid`, for images of the extent `slot`: `images[rid]`. -/
def image (slot : Extent) (rid : Nat) : Image := ⟨slot, .data, rid * slot.size, slot.width⟩

def rawImage (extent : Extent) : Image := ⟨extent, .rawImage, 0, extent.pitch⟩

def cropedImage (slot : Extent) : Image := ⟨slot, .cropedImage, 0, slot.pitch⟩

/-- One pass of the loop of `ParseRecords`, once it is known whether to crop and to mirror and what is drawn
for the offsets. -/
def parseImage (layer : RGBImageLayer α) (slot extent : Extent) (rid : Nat) (record : ImageRecord α)
    (doCrop doMirror : Bool) (drawHeight drawWidth : Nat) : ImageProg α Unit := do
  let raw := doCrop || doMirror
  let dptr : ImageBuffer := if raw then .rawImage else .data
  let base := if raw then 0 else (image slot rid).base
  copyRecord (some rid) record dptr base
  subtractMean (some rid) layer.mean.count dptr base
  if doCrop then
    let hoff ← Access.Prog.ofExcept (randMod drawHeight (extent.height - layer.cropsize))
    let woff ← Access.Prog.ofExcept (randMod drawWidth (extent.width - layer.cropsize))
    if doMirror then
      (cropedImage slot).assignCrop (some rid) (rawImage extent) layer.cropsize hoff.toNat woff.toNat
      (image slot rid).assignMirror (some rid) (cropedImage slot)
    else (image slot rid).assignCrop (some rid) (rawImage extent) layer.cropsize hoff.toNat woff.toNat
  else if doMirror then (image slot rid).assignMirror (some rid) (rawImage extent)

/-- One pass of the loop of `ParseRecords`: `k` numbers have been drawn before. -/
def parseRecord (layer : RGBImageLayer α) (slot extent : Extent) (phase : Phase) (draws : Nat → Nat) (rid : Nat)
    (record : ImageRecord α) (k : Nat) : ImageProg α Nat := do
  let doCrop : Bool := 0 < layer.cropsize ∧ phase = .kTrain
  let doMirror : Bool := layer.mirror ∧ draws k % 2 ≠ 0 ∧ phase = .kTrain
  let k := if layer.mirror then k + 1 else k
  layer.parseImage slot extent rid record doCrop doMirror (draws k) (draws (k + 1))
  return if doCrop then k + 2 else k

/-- `RGBImageLayer::ParseRecords`, with the numbers that `rand()` returns. -/
def parseRecords (layer : RGBImageLayer α) (phase : Phase) (draws : Nat → Nat) (records : List (ImageRecord α)) :
    ImageProg α Unit :=
  match records.head?.map ImageRecord.shape, layer.data.shape with
  | some [channels, height, width], [_, slotChannels, slotHeight, slotWidth] => do
    let extent : Extent := ⟨channels, height, width⟩
    let slot : Extent := ⟨slotChannels, slotHeight, slotWidth⟩
    let _ ← records.zipIdx.foldlM (fun k (record, rid) => layer.parseRecord slot extent phase draws rid record k) 0
    if layer.scale ≠ 0 then
      forM (List.range layer.data.count) fun i => do
        let v ← Access.Prog.read .range none .data i
        Access.Prog.write .range none .data i (v * layer.scale)
  | _, _ => Access.Prog.fail .range

/-- The sizes of the buffers while records of the given extent are parsed. -/
def bufferSize (layer : RGBImageLayer α) (slot extent : Extent) : ImageBuffer → Nat
  | .data => layer.data.count
  | .rawImage => extent.allocated
  | .cropedImage => if layer.cropsize ≠ 0 then slot.allocated else 0
  | .mean => layer.mean.count

/-- An access for record `n` is within slot `n` of the data blob, and any access is within its buffer. -/
def InSlot (layer : RGBImageLayer α) (slot extent : Extent) (x : Access.Entry ImageBuffer (Option Nat)) : Prop :=
  x.index < layer.bufferSize slot extent x.buffer ∧
    ∀ n, x.tag = some n → x.buffer = .data → n * slot.size ≤ x.index ∧ x.index < (n + 1) * slot.size

/-- Parsing a batch divides by no zero and stays in the slots, whatever is in the buffers before. -/
def ParsesInSlots (layer : RGBImageLayer α) (slot extent : Extent) (phase : Phase) (draws : Nat → Nat)
    (records : List (ImageRecord α)) : Prop :=
  ∀ s, Access.Sized (layer.bufferSize slot extent) s →
    (layer.parseRecords phase draws records s).result ≠ .error .divZero ∧
      ∀ x ∈ (layer.parseRecords phase draws records s).trace, layer.InSlot slot extent x

/-- A record of the given extent: it has its pixels or its floats. -/
structure Whole (extent : Extent) (record : ImageRecord α) : Prop where
  shape : record.shape = [extent.channels, extent.height, extent.width]
  values : record.pixel.length = extent.size ∨ record.pixel = [] ∧ record.data.length = extent.size

end RGBImageLayer
end Singa
