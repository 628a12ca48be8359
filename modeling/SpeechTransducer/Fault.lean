import SpeechTransducer.ElementType
import SpeechTransducer.Number.ByteCount
import SpeechTransducer.Text.Quoted

/-!
Everything that can go wrong, as causes. The wording of a cause is one function, so that a test on
the cause never depends on a text.
-/

namespace SpeechTransducer

/-- The files a recognizer asks for. -/
inductive FileRole where
  | model | tokens | hotwords | subwords
  deriving DecidableEq, Repr

/-- The word for a file in messages. -/
def FileRole.label : FileRole → String
  | model => "Model file"
  | tokens => "Tokens file"
  | hotwords => "Hotwords file"
  | subwords => "BPE model"

/-- Arguments that have to be arrays of numbers. -/
inductive ArrayRole where
  | encoderOut | samples | features
  deriving DecidableEq, Repr

/-- The word for an array argument in messages. -/
def ArrayRole.label : ArrayRole → String
  | encoderOut => "encoder_out"
  | samples => "samples"
  | features => "features"

/-- A cause of failure. -/
inductive Fault where
  /-- The container holds no hypothesis to be the best. -/
  | noHypothesis
  | unknownMergeRule (name : String)
  | scoreCount (scores phrases : Nat)
  /-- A position outside a list. -/
  | outOfRange
  /-- A position that fits no machine word. -/
  | indexTooLarge
  /-- A number of entries that fits no machine word. -/
  | countTooLarge
  /-- A list with more entries than there is memory for. -/
  | listTooLong
  /-- A plain list was given where an array is needed. -/
  | notAnArray (role : ArrayRole)
  | encoderShape (shape : List Nat)
  | searchWithoutHypotheses
  | beamWidth (width : Int)
  | unknownMethod (name : String)
  /-- The rows differ in length and form no array of `rows` rows. -/
  | raggedRows (rows : Nat)
  /-- A token number that does not fit the network's integer type. -/
  | tokenTooLarge
  /-- Rows of logits that are not as many as the paths that they are for. -/
  | rowCount (rows width paths : Nat)
  /-- There is no first row. -/
  | noRow
  /-- A row without entries has no largest one. -/
  | emptyRow
  | emptyReduction
  /-- Arrays whose shapes do not fit together. -/
  | shapesDiffer (left right : List Nat)
  | negativeDimension
  /-- A dimension that fits no machine word. -/
  | dimensionTooLarge
  /-- An array with more bytes than a machine word counts. -/
  | arrayTooLarge
  /-- An array with more bytes than there is memory for. -/
  | noMemory (bytes : Nat) (shape : List Nat) (kind : ElementType)
  | unknownSymbolId (id : Int)
  | unknownSymbol (symbol : String)
  | badInteger (text : String)
  | integerTooLong (digits : Nat)
  | missingFile (role : FileRole) (path : String)
  | missingDownload (repository file : String)
  /-- Bytes that are not UTF-8. -/
  | undecodable
  | unknownUnit (name : String)
  | unitNeedsSubwords (name : String)
  | unitNeedsSubwordFile (name : String)
  /-- A text whose pieces do not add up to it. -/
  | unspellable
  | inputClosed
  | samplesShape (shape : List Nat)
  | rateChanged (was now : Int)
  | framesNotReady (first stop : Int) (ready : Nat)
  /-- A stack of no frames. -/
  | emptyStack
  /-- Filterbank settings that describe no filterbank. -/
  | filterbankSettings
  /-- A frame shift of no samples. -/
  | zeroShift
  | equalRates
  | zeroRate
  /-- Both rates are zero. -/
  | zeroRates
  /-- Rates between which there is no conversion: below zero, or far apart. -/
  | noConversion
  /-- More bands of a filterbank than there is memory for. -/
  | tooManyBands
  /-- A plain list was given where samples are needed. -/
  | listOfSamples
  /-- Samples with dimensions other than one. -/
  | sampleDimensions (count : Nat)
  /-- A rate too large for a floating-point number. -/
  | rateTooLarge
  /-- A number too large to be turned into seconds. -/
  | timeTooLarge
  | streamNotReady (processed ready segment : Int)
  | featureWidth (model configured : Int)
  | unknownModelType (name : String)
  | missingMetadata (key : String)
  | encoderWidth (encoder configured : Int)
  | stateCount (expected got : Nat)
  | featuresShape (segment width : Int) (shape : List Nat)
  /-- A network answered with something else than rows. -/
  | answerShape (shape : List Nat)
  | unknownProvider (name : String)
  /-- A network or a subword model that cannot be opened. -/
  | unreadable (path : String)
  /-- A file that holds no audio. -/
  | noAudio (path : String)
  | missingAudio (path : String)
  | noAudioReader
  | zeroStep
  | secondsUndefined
  | secondsInfinite
  /-- The download folder's place is taken by a file. -/
  | folderTaken (path : String)
  /-- A folder cannot be made below a file. -/
  | belowFile (path : String)
  | sharedOnly
  | noModelSource
  | notInitialized
  deriving DecidableEq, Repr

/-- A shape as text: `()`, `(10,)`, `(3, 10)`. -/
def shapeText : List Nat → String
  | [] => "()"
  | [n] => s!"({n},)"
  | ns => "(" ++ ", ".intercalate (ns.map toString) ++ ")"

/-- The wording of a cause. -/
def Fault.message : Fault → String
  | noHypothesis => "Cannot get the most probable hypothesis of an empty container"
  | unknownMergeRule name => "unknown merge rule " ++ Text.quoted name
  | scoreCount scores phrases => s!"Got {scores} scores for {phrases} phrases"
  | outOfRange => "list index out of range"
  | indexTooLarge | countTooLarge => "cannot fit 'int' into an index-sized integer"
  | listTooLong => ""
  | notAnArray role =>
    s!"Incorrect '{role.label}' type: expected np.ndarray, but got <class 'list'>"
  | encoderShape shape =>
    "Shape of 'encoder_out' must be (1, T, C), but got " ++ shapeText shape
  | searchWithoutHypotheses =>
    "DecoderResult has no hypotheses, it was not created by ModifiedBeamSearchDecoder"
  | beamWidth width => s!"'num_active_paths' must be positive, but got {width}"
  | unknownMethod name => "Unsupported decoding method: " ++ name
  | raggedRows rows =>
    "setting an array element with a sequence. The requested array has an inhomogeneous shape " ++
    s!"after 1 dimensions. The detected shape was ({rows},) + inhomogeneous part."
  | tokenTooLarge => "Python int too large to convert to C long"
  | rowCount 1 width paths =>
    s!"non-broadcastable output operand with shape (1,{width}) doesn't match the broadcast " ++
    s!"shape ({paths},{width})"
  | rowCount rows width paths =>
    s!"operands could not be broadcast together with shapes ({rows},{width}) ({paths},1) " ++
    s!"({rows},{width}) "
  | noRow => "index 0 is out of bounds for axis 0 with size 0"
  | emptyRow => "attempt to get argmax of an empty sequence"
  | emptyReduction => "zero-size array to reduction operation maximum which has no identity"
  | shapesDiffer left right =>
    "operands could not be broadcast together with shapes " ++
    (shapeText left).replace " " "" ++ " " ++ (shapeText right).replace " " "" ++ " "
  | negativeDimension => "negative dimensions are not allowed"
  | dimensionTooLarge => "Maximum allowed dimension exceeded"
  | arrayTooLarge =>
    "array is too big; \x60arr.size * arr.dtype.itemsize\x60 is larger than the maximum " ++
    "possible size."
  | noMemory bytes shape kind =>
    s!"Unable to allocate {Number.byteText bytes} for an array with shape {shapeText shape} and " ++
    s!"data type {kind.name}"
  | unknownSymbolId id => toString id
  | unknownSymbol symbol => Text.quoted symbol
  | badInteger text =>
    "invalid literal for int() with base 10: " ++ String.ofList ((Text.quoted text).toList.take 200)
  | integerTooLong digits =>
    "Exceeds the limit (4300 digits) for integer string conversion: value has " ++
    s!"{digits} digits; use sys.set_int_max_str_digits() to increase the limit"
  | missingFile role path => s!"{role.label} '{path}' does not exist"
  | missingDownload repository file => s!"{repository}/{file}"
  | undecodable => "the bytes are not UTF-8"
  | unknownUnit name => "Unsupported modeling unit: " ++ name
  | unitNeedsSubwords name => s!"Modeling unit '{name}' requires a BPE model"
  | unitNeedsSubwordFile name => s!"Modeling unit '{name}' requires 'bpe_vocab' for hotwords"
  | unspellable => "the pieces of a text do not add up to it"
  | inputClosed => "Cannot accept waveform after input_finished() was called"
  | samplesShape shape => "Shape of 'samples' must be (L,), but got " ++ shapeText shape
  | rateChanged was now => s!"Sample rate changed from {was} Hz to {now} Hz within a stream"
  | framesNotReady first stop ready =>
    s!"Requested frames [{first}, {stop}), but only {ready} are ready"
  | emptyStack => "need at least one array to stack"
  | filterbankSettings => "the settings describe no filterbank"
  | zeroShift | zeroRates => "integer division or modulo by zero"
  | equalRates => "the rates are equal"
  | zeroRate => "a rate is zero"
  | noConversion => "there is no conversion between the rates"
  | tooManyBands => "there is no memory for the bands"
  | listOfSamples => "'list' object has no attribute 'astype'"
  | sampleDimensions 0 => "zero-dimensional arrays cannot be concatenated"
  | sampleDimensions count =>
    "all the input arrays must have same number of dimensions, but the array at index 0 has 1 " ++
    s!"dimension(s) and the array at index 1 has {count} dimension(s)"
  | rateTooLarge => "a rate is too large"
  | timeTooLarge => "int too large to convert to float"
  | streamNotReady processed ready segment =>
    s!"Stream is not ready: {processed} frames processed, {ready} ready, " ++
    s!"{segment} needed per chunk"
  | featureWidth model configured =>
    s!"Model expects {model} feature bins, but feat_config has {configured}"
  | unknownModelType name => "Unsupported model type: " ++ name
  | missingMetadata key => Text.quoted key
  | encoderWidth encoder configured =>
    s!"Encoder expects {encoder} feature bins, but feature_dim is {configured}"
  | stateCount expected got => s!"Encoder expects {expected} states, but got {got}"
  | featuresShape segment width shape =>
    s!"Shape of 'features' must be ({segment}, {width}), but got " ++ shapeText shape
  | unknownProvider name => "Unsupported provider: " ++ name
  | answerShape shape => "the answer of a network must be rows, but got " ++ shapeText shape
  | unreadable path => s!"file '{path}' cannot be opened"
  | noAudio path => s!"file '{path}' holds no audio that can be read"
  | missingAudio path => s!"audio file '{path}' does not exist"
  | noAudioReader =>
    "Package 'miniaudio' not found.\nInstall it with the following command:\n" ++
    "  pip install 'zipstream[demo]'   # using package extras\n"
  | zeroStep => "range() arg 3 must not be zero"
  | secondsUndefined => "cannot convert float NaN to integer"
  | secondsInfinite => "cannot convert float infinity to integer"
  | folderTaken path => s!"'{path}' is no folder"
  | belowFile path => s!"[Errno 20] Not a directory: '{path}'"
  | sharedOnly => "This is class is a singleton!"
  | noModelSource => "Set LOAD_FROM_FOLDER or HUGGING_FACE_REPO to load the model"
  | notInitialized => "Recognizer is not initialized"

end SpeechTransducer
