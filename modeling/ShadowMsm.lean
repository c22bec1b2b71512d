import ShadowMsm.HdlcStream
import ShadowMsm.MailboxFifo
import ShadowMsm.StaleBytes
import ShadowMsm.CrcVerify
import ShadowMsm.Bl1.Handoff
import ShadowMsm.Bl1.ZimageHandoff
import ShadowMsm.Bl1.Fingerprints
import ShadowMsm.Host.PblLink
import ShadowMsm.Host.Bundle
import ShadowMsm.Host.Preflight
import ShadowMsm.Host.SessionLog
import ShadowMsm.Host.SessionPrompt
import ShadowMsm.Host.ReplyLink
import ShadowMsm.Linux.InputReaders
import ShadowMsm.Linux.TraceWrite
import ShadowMsm.Linux.SdccRequest
import ShadowMsm.Linux.SdccWait
import ShadowMsm.Linux.SdccTransfer
import ShadowMsm.Linux.SdccClock
import ShadowMsm.Linux.TimerProgram
import ShadowMsm.Linux.TimerInit
import ShadowMsm.Linux.TtyPoller
import ShadowMsm.Kernel.BootContract
import ShadowMsm.Kernel.FdtBuild
import ShadowMsm.Kernel.FdtSafety
import ShadowMsm.CrcDetection
import ShadowMsm.Mmu.Transparent
import ShadowMsm.Userspace.LineEditor
import ShadowMsm.Host.KitAgreement
import ShadowMsm.BootRequest
import ShadowMsm.TimerProbe.Run
import ShadowMsm.Watchdog
import ShadowMsm.Linux.DiagQueue
import ShadowMsm.Armprg.Build
import ShadowMsm.Armprg.RgbHost
import ShadowMsm.Keyboard
import ShadowMsm.Linux.IrqRoute
import ShadowMsm.Host.BundleLoad
