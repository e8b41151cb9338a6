import PicoRecorder.Lib.Ring
import PicoRecorder.Lib.CounterRing
import PicoRecorder.Lib.Run
import PicoRecorder.Lib.Hoare
import PicoRecorder.Lib.Scanner
import PicoRecorder.Lib.Baton
import PicoRecorder.Lib.Json
import PicoRecorder.Lib.Binary64
import PicoRecorder.Pico.Wire
import PicoRecorder.Pico.Queues
import PicoRecorder.Pico.Scheduler
import PicoRecorder.Pico.Delivery
import PicoRecorder.Pico.Firmware
import PicoRecorder.Pico.Steps
import PicoRecorder.Pico.Joint
import PicoRecorder.Pico.Outcome
import PicoRecorder.Pico.Release
import PicoRecorder.Pico.Record
import PicoRecorder.Pico.Grammar
import PicoRecorder.Pico.Uart
import PicoRecorder.Pico.Transmit
import PicoRecorder.PiZero.Codec
import PicoRecorder.PiZero.Decoder
import PicoRecorder.PiZero.Reading
import PicoRecorder.Link.Commands
import PicoRecorder.Link.Telemetry
import PicoRecorder.PiZero.Transport
import PicoRecorder.PiZero.Playback
import PicoRecorder.PiZero.Service
import PicoRecorder.PiZero.Reconcile
import PicoRecorder.PiZero.Recordings
import PicoRecorder.Lib.Directory
import PicoRecorder.PiZero.RecordingStore
import PicoRecorder.PiZero.Controller
import PicoRecorder.PiZero.Moves
import PicoRecorder.PiZero.Ownership
import PicoRecorder.PiZero.Honesty
import PicoRecorder.PiZero.Capture
import PicoRecorder.PiZero.Chronicle
import PicoRecorder.PiZero.SafeStop
import PicoRecorder.Link.Timing
import PicoRecorder.Link.Handshake
import PicoRecorder.Pico.Resync
import PicoRecorder.Pico.Tokens
import PicoRecorder.Pico.Device
import PicoRecorder.Pico.Batching
import PicoRecorder.Pico.Session
import PicoRecorder.PiZero.Waits
import PicoRecorder.PiZero.Feeding
import PicoRecorder.Pico.Credit
import PicoRecorder.Pico.Sinks
import PicoRecorder.Pico.Stall
import PicoRecorder.Pico.Deadlines
import PicoRecorder.Pico.Statistics
import PicoRecorder.Link.Offsets
import PicoRecorder.Pico.Underrun
import PicoRecorder.Pico.Watchdog
import PicoRecorder.Lib.Fifo
import PicoRecorder.Pico.Fifos
import PicoRecorder.Lib.Crc
import PicoRecorder.Link.ErrorDetection
import PicoRecorder.PiZero.Schema
import PicoRecorder.Lib.JsonScan
import PicoRecorder.PiZero.Loading
import PicoRecorder.Lib.Manifest
import PicoRecorder.PiZero.Serial
import PicoRecorder.PiZero.Deliveries
import PicoRecorder.PiZero.InTime
import PicoRecorder.PiZero.Recorded
import PicoRecorder.Lib.Window
import PicoRecorder.PiZero.Sequence
import PicoRecorder.PiZero.Scaling
import PicoRecorder.PiZero.Library
import PicoRecorder.Link.Rig
import PicoRecorder.Link.Wakeup
import PicoRecorder.Link.Overrun
import PicoRecorder.Link.Replay
import PicoRecorder.PiZero.Lasting
import PicoRecorder.Link.Playthrough
import PicoRecorder.PiZero.Taped
import PicoRecorder.Link.Transcript
