import AioMod.CrashProg
import AioMod.FileTree
import AioMod.FatFs
import AioMod.FsCopy
import AioMod.FsCopySpec
import AioMod.Journal
import AioMod.JournalSpec
import AioMod.Script
import AioMod.AppUpdater
import AioMod.AppUpdaterSpec
import AioMod.AppAtomic
import AioMod.CfwUpdater
import AioMod.CfwPhases
import AioMod.JournalFaults
import AioMod.CfwSpec
import AioMod.CfwPayload
import AioMod.CfwBackup
import AioMod.CfwRollback
import AioMod.CfwAtomic
import AioMod.HorizonFs
import AioMod.CfwHorizon
import AioMod.CfwHorizonSpec
import AioMod.CfwHorizonFaults
import AioMod.CfwCommit
import AioMod.Traces
import AioMod.MtpStream
import AioMod.ByteImage
import AioMod.RomFs
import AioMod.RomFsLookup
import AioMod.ForwarderLoader
import AioMod.ForwarderMap
import AioMod.ForwarderNca
import AioMod.ForwarderNcaSpec
import AioMod.ForwarderInstall
import AioMod.ForwarderSpec
import AioMod.ThrowProg
import AioMod.ExplorerFs
import AioMod.ExplorerOps
import AioMod.PortUninstall
import AioMod.PortUninstallSpec
import AioMod.RingBuffer
import AioMod.MtpInstallStream
import AioMod.MtpInstallStreamSpec
import AioMod.NspManifest
import AioMod.NspManifestSpec
import AioMod.MtpDatasets
import AioMod.MtpNativeServer
import AioMod.MtpNativeServerSpec
import AioMod.MtpFraming
import AioMod.MtpAnswers
import AioMod.MtpPending
import AioMod.MtpMenu
import AioMod.MtpMenuSpec
import AioMod.MtpMenuStop
import AioMod.MtpInstallMode
import AioMod.MtpInstallModeSpec
import AioMod.MtpSendObject
import AioMod.MtpSendObjectSpec
import AioMod.TextLines
import AioMod.IniEditor
import AioMod.IniEditorSpec
import AioMod.IniEditorSave
import AioMod.ExtractSpec
import AioMod.ExcludePageSpec
import AioMod.CopyFiles
import AioMod.PortInstallSpec
import AioMod.ExplorerPageSpec
import AioMod.CheatsSpec
import AioMod.ExtractFiles
import AioMod.ColorSwapperSpec
import AioMod.DownloadBuffer
import AioMod.VersionOrder
import AioMod.NetPage
import AioMod.ActivityLog
import AioMod.MtpCopyLog
import AioMod.NspJournalSpec
import AioMod.NspRecords
import AioMod.Base64
import AioMod.MegaLink
import AioMod.OrphanedCheatsSpec
import AioMod.NspApplication
import AioMod.Pfs0RoundTrip
import AioMod.PackageReaderSpec
import AioMod.MtpPropList
import AioMod.TextShorteners
import AioMod.NspStreamSpec
import AioMod.ProgHandler
import AioMod.NspCnmt
import AioMod.NspCnmtSpec
import AioMod.NspInstall
import AioMod.NspInstaller
import AioMod.NspInstallCalls
import AioMod.NspInstallKept
import AioMod.NspInstallUndo
import AioMod.NspInstallAtomic
import AioMod.NspInstalled
import AioMod.LzCoder
import AioMod.LzCoderSpec
import AioMod.LzRoundTrip
import AioMod.ByteMemory
import AioMod.LzLoader
import AioMod.CfwStaging
import AioMod.CfwStagingSpec
import AioMod.BootPayload
