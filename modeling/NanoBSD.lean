import NanoBSD.Vfs.Interleaving
import NanoBSD.Acpi.SwitchOff
import NanoBSD.Acpi.RoundTrip
import NanoBSD.Lapic.Ticks
import NanoBSD.Timeout.Next
import NanoBSD.Timecounter.Uptime
import NanoBSD.Timecounter.Wrap
import NanoBSD.Timecounter.Crossing
import NanoBSD.Lpsched.IdleReport
import NanoBSD.Runq.Overdue
import NanoBSD.Wg.Teardown
import NanoBSD.Wg.Limits
import NanoBSD.Wg.Chain
import NanoBSD.Tasklet.Refine
import NanoBSD.Resv.Sleep
import NanoBSD.Tlb.Safety
import NanoBSD.Wg.Hazards
import NanoBSD.Wg.Nonce
import NanoBSD.Resv.Teardown
import NanoBSD.Freeze.Thaw
import NanoBSD.Acpi.AdrPower
import NanoBSD.Sagv.Commit
import NanoBSD.Iwx.BlockAck
import NanoBSD.Iwx.Sessions
import NanoBSD.Vcam.Camera
import NanoBSD.Memfd.Object
import NanoBSD.Lpschedd.Limits
import NanoBSD.Xhci.Doorbell
import NanoBSD.Xhci.Callout
import NanoBSD.Wg.Receive
import NanoBSD.Timeout.Slack
import NanoBSD.Execlists.Virtual
import NanoBSD.S2idle.Undo
import NanoBSD.S2idle.Wake
import NanoBSD.Audio.Restart
import NanoBSD.Hdaudio.Awake
import NanoBSD.Bta2dpd.Stream
import NanoBSD.Hwp.PowerLimit
import NanoBSD.Ubt.Ddc
import NanoBSD.Freezeshot.Events
import NanoBSD.Imt.Fields
import NanoBSD.Sofdsp.Bdl
import NanoBSD.Strip.Widths
