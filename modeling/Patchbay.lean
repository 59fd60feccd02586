import Patchbay.Files.Patch
import Patchbay.Output.FrameQueue
import Patchbay.Output.I2s
import Patchbay.Output.Pwm
import Patchbay.Render.Feeder
import Patchbay.Router
import Patchbay.Settings
import Patchbay.Proofs.Files.Seekable
import Patchbay.Proofs.Fudi.Feeding
import Patchbay.Proofs.Fudi.RoundTrip
import Patchbay.Proofs.Fudi.CutLines
import Patchbay.Proofs.Render.Playback
import Patchbay.Proofs.Files.Watched
import Patchbay.Proofs.Ring.Fifo
import Patchbay.Proofs.Files.Coupling
import Patchbay.Proofs.Files.Handles
import Patchbay.Proofs.Files.Effect
import Patchbay.Proofs.Files.Position
import Patchbay.Proofs.Files.Failure
import Patchbay.Proofs.Output.FrameFifo
import Patchbay.Proofs.Output.Sink
import Patchbay.Proofs.Render.TopOff
import Patchbay.Proofs.Render.Holes
import Patchbay.Proofs.Render.Start
import Patchbay.Proofs.Render.Gapless
import Patchbay.Proofs.Output.PwmOrder
import Patchbay.Proofs.Output.PwmDuty
import Patchbay.Proofs.Output.I2sSession
import Patchbay.Proofs.Fudi.Dispatch
import Patchbay.Proofs.Router
import Patchbay.Proofs.Render.ClosedForm
import Patchbay.Proofs.Sample.Bounds
import Patchbay.Proofs.Sample.Silence
import Patchbay.Proofs.Sample.Accuracy
import Patchbay.Proofs.Fudi.Writes
import Patchbay.Proofs.Files.Discovery
import Patchbay.Proofs.Files.Live
import Patchbay.Proofs.Files.Sizing
import Patchbay.Proofs.Fudi.Numbers
import Patchbay.Proofs.Files.Place
import Patchbay.Proofs.Midi
import Patchbay.Proofs.Settings
