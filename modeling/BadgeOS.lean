import BadgeOS.Harmonia.Registry
import BadgeOS.Harmonia.SingleFlight
import BadgeOS.Harmonia.Slots
import BadgeOS.Harmonia.SpoolSpace
import BadgeOS.Harmonia.Bodies
import BadgeOS.Harmonia.References
import BadgeOS.Harmonia.MissLoop
import BadgeOS.Harmonia.Answers
import BadgeOS.Lib.Packing
import BadgeOS.Oled.Eval
import BadgeOS.BadApple.EmitDelta
import BadgeOS.BadApple.Playback
import BadgeOS.Lib.Crash
import BadgeOS.Stage0.SlotState
import BadgeOS.Stage0.PowerCuts
import BadgeOS.Stage0.CardState
import BadgeOS.Stage0.CardHistory
import BadgeOS.EmmcUpdate.Emmc
import BadgeOS.EmmcUpdate.Update
import BadgeOS.EmmcUpdate.PowerCuts
import BadgeOS.EmmcUpdate.Room
import BadgeOS.EmmcUpdate.Reruns
import BadgeOS.Bling.Config
import BadgeOS.Harmonia.SpoolFile
import BadgeOS.Harmonia.Upstreams
import BadgeOS.Bling.RuntimeFile
import BadgeOS.Bling.Set
import BadgeOS.Bling.Frames
import BadgeOS.Bling.Run
import BadgeOS.Bling.Transfer
import BadgeOS.Content.Font
import BadgeOS.Oled.ScreenSet
import BadgeOS.BadApple.Overlay
import BadgeOS.Oled.Button
import BadgeOS.Oled.Navigation
import BadgeOS.Lib.Cursor
import BadgeOS.Oled.Panel
import BadgeOS.Oled.Glass
import BadgeOS.Oled.Flush
import BadgeOS.Oled.Transient
import BadgeOS.BoardId.Layout
import BadgeOS.BoardId.Codec
import BadgeOS.BoardId.Agreement
import BadgeOS.BoardId.RoundTrip
import BadgeOS.BoardId.Burn
import BadgeOS.Oled.Contract
import BadgeOS.Oled.FixEval
import BadgeOS.Oled.Interchange
import BadgeOS.Display.Ion
import BadgeOS.Display.IonLifetime
import BadgeOS.Display.IonBudget
import BadgeOS.Lib.Memory
import BadgeOS.Lib.Neon
import BadgeOS.Wlroots.Nv12
import BadgeOS.Wlroots.Nv12Pixel
import BadgeOS.Wlroots.Nv12Rows
import BadgeOS.Wlroots.Nv12Equal
import BadgeOS.CodaCube.MotionComp
import BadgeOS.CodaCube.Interpolate
import BadgeOS.CodaCube.InterpolateNeon
import BadgeOS.CodaCube.ChromaNeon
import BadgeOS.Lib.Rectangle
import BadgeOS.Sdl.Framebuffer
import BadgeOS.Sdl.FramebufferOwned
import BadgeOS.Sdl.FramebufferShown
import BadgeOS.Sdl.ModeSwitch
import BadgeOS.Sdl.ModeSwitchRun
import BadgeOS.Display.VideoLayer
import BadgeOS.Display.VideoLayerRun
import BadgeOS.Display.PageFlip
import BadgeOS.Stage0.OtherSlot
import BadgeOS.Lib.Files
import BadgeOS.BootFiles.Installers
import BadgeOS.Bling.Faults
import BadgeOS.Bling.RoundTrip
import BadgeOS.CodaCube.NalWrap
import BadgeOS.CodaCube.References
import BadgeOS.Lib.Ranking
import BadgeOS.CodaCube.ReferenceList
import BadgeOS.CodaCube.ReferenceChoice
import BadgeOS.Lib.Ledger
import BadgeOS.Wlroots.DmabufConvert
import BadgeOS.Wlroots.DmabufSafe
import BadgeOS.CodaCube.Surface
import BadgeOS.Lib.Painting
import BadgeOS.CodaCube.SurfaceRows
import BadgeOS.CodaCube.SurfaceEqual
import BadgeOS.EmmcInit.Init
import BadgeOS.EmmcInit.Refusals
import BadgeOS.Lib.Fat
import BadgeOS.BootFiles.Refusals
import BadgeOS.BootFiles.BootFat
import BadgeOS.Badge.Bootswap
import BadgeOS.Badge.CpuMeter
import BadgeOS.Oled.Overlay
import BadgeOS.Bling.Waveform
import BadgeOS.Oled.Coalesce
import BadgeOS.Oled.Faulted
import BadgeOS.Oled.PanelSafe
import BadgeOS.Bling.Blob
import BadgeOS.Bling.Patterns
import BadgeOS.BootFiles.CardSpace
import BadgeOS.BootFiles.HookSpace
import BadgeOS.Content.Pack
import BadgeOS.Content.Shapes
import BadgeOS.Content.DrawText
import BadgeOS.Content.Hud
import BadgeOS.Lib.Lines
import BadgeOS.Harmonia.NarInfo
import BadgeOS.Display.PipeCheck
import BadgeOS.Display.ReadMode
import BadgeOS.Oled.ScreenState
import BadgeOS.Badge.Mmio
import BadgeOS.Lib.Rotation
import BadgeOS.V1.Mesh
import BadgeOS.BootFiles.WholeFiles
import BadgeOS.Badge.Sysfs
import BadgeOS.EmmcInit.StoreImage
import BadgeOS.CodaCube.Pictures
import BadgeOS.CodaCube.Prediction
import BadgeOS.CodaCube.Custody
import BadgeOS.CodaCube.Returns
import BadgeOS.CodaCube.BitWriter
import BadgeOS.CodaCube.MotionGrid
import BadgeOS.CodaCube.Pages
import BadgeOS.CodaCube.Slice
import BadgeOS.CodaCube.SliceData
import BadgeOS.CodaCube.SmoothingPass
import BadgeOS.CodaCube.Buffers
import BadgeOS.CodaCube.CpuModel
import BadgeOS.CodaCube.CpuModelPass
import BadgeOS.CodaCube.PageDecoded
import BadgeOS.CodaCube.StreamDecoded
import BadgeOS.BadApple.OnGlass
import BadgeOS.BadApple.Baked
import BadgeOS.Bling.Bake
import BadgeOS.V1.RingBuffer
