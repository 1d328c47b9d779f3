import StdDaq.DetectorConfig

/-!
# Frame headers and image metadata

The header a receiver fills for one module (`detectors/*.hpp`) and the metadata message of one
image (`image_metadata.proto`), which is all that travels between the services: the pixels stay
in shared memory. Unsigned fields are natural numbers.
-/

namespace StdDaq

/-- The fields every frame header starts with (`CommonFrame`). -/
structure CommonFrame where
  imageId : ℕ
  nMissingPackets : ℕ
  moduleId : ℕ
  deriving DecidableEq, Repr

/-- The header of a GigaFRoST module frame (`gf::GFFrame`). -/
structure GFFrame where
  common : CommonFrame
  swappedRows : ℕ := 0
  linkId : ℕ := 0
  corrMode : ℕ := 0
  quadrantId : ℕ := 0
  rpf : ℕ := 0
  doNotStore : ℕ := 0
  scanId : ℕ := 0
  sizeX : ℕ := 0
  sizeY : ℕ := 0
  scanTime : ℕ := 0
  syncTime : ℕ := 0
  frameTimestamp : ℕ := 0
  exposureTime : ℕ := 0
  deriving DecidableEq, Repr

/-- The header of an Eiger module frame (`eg::EGFrame`). -/
structure EGFrame where
  common : CommonFrame
  bitDepth : ℕ := 0
  posY : ℕ := 0
  posX : ℕ := 0
  deriving DecidableEq, Repr

/-- The header of a Jungfrau module frame (`jf::JFFrame`). -/
structure JFFrame where
  common : CommonFrame
  id : ℕ := 0
  frameIndex : ℕ := 0
  daqRec : ℕ := 0
  moduleId : ℕ := 0
  deriving DecidableEq, Repr

inductive ImageMetadataDtype where
  | unknown | uint8 | uint16 | uint32 | uint64 | int8 | int16 | int32 | int64
  | float16 | float32 | float64
  deriving DecidableEq, Repr

inductive ImageMetadataStatus where
  | undefined | goodImage | missingPackets | idMissmatch
  deriving DecidableEq, Repr

inductive ImageMetadataCompression where
  | none | h5bitshuffleLz4 | blosc2
  deriving DecidableEq, Repr

/-- The `oneof image_metadata` of the message. -/
inductive DetectorMetadata where
  | notSet
  | gf (scanId scanTime syncTime frameTimestamp exposureTime : ℕ) (storeImage : Bool)
  | jf (daqRec : ℕ)
  | eg (exptime : ℕ)
  | pco (globalTimestampSec globalTimestampNs : ℕ) (bsreadName : String)
  deriving DecidableEq, Repr

/-- The message `ImageMetadata`. -/
structure ImageMetadata where
  imageId : ℕ := 0
  height : ℕ := 0
  width : ℕ := 0
  size : ℕ := 0
  dtype : ImageMetadataDtype := .unknown
  status : ImageMetadataStatus := .undefined
  compression : ImageMetadataCompression := .none
  detector : DetectorMetadata := .notSet
  deriving DecidableEq, Repr

/-- `utils::get_metadata_dtype`. -/
def getMetadataDtype (config : DetectorConfig) : Except String ImageMetadataDtype :=
  if config.detectorType = .jungfrauConverted then .ok .float32
  else if config.bitDepth = 8 then .ok .uint8
  else if config.bitDepth = 16 then .ok .uint16
  else if config.bitDepth = 32 then .ok .uint32
  else .error "Unsupported bit_depth of the image"

/-- A frame type of a detector: the template argument of the module synchronizer. -/
class FrameType (F : Type) where
  /-- The member `common`. -/
  common : F → CommonFrame
  /-- What `fill_detector_specific_data` adds to the message. -/
  fillDetectorSpecificData : F → DetectorMetadata

export FrameType (common fillDetectorSpecificData)

instance : FrameType GFFrame where
  common := GFFrame.common
  fillDetectorSpecificData frame :=
    .gf frame.scanId frame.scanTime frame.syncTime frame.frameTimestamp frame.exposureTime
      (frame.doNotStore == 0)

instance : FrameType JFFrame where
  common := JFFrame.common
  fillDetectorSpecificData frame := .jf frame.daqRec

instance : FrameType EGFrame where
  common := EGFrame.common
  fillDetectorSpecificData _ := .eg 0

/-- The image a frame belongs to. -/
def imageId {F : Type} [FrameType F] (frame : F) : ℕ := (common frame).imageId

/-- The packets of a frame that never arrived. -/
def nMissingPackets {F : Type} [FrameType F] (frame : F) : ℕ := (common frame).nMissingPackets

end StdDaq
