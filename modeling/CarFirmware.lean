import CarFirmware.Lib.LockedDevice
import CarFirmware.Proofs.ParseCmd
import CarFirmware.Proofs.Tempo
import CarFirmware.Proofs.I2s
import CarFirmware.Proofs.Players
import CarFirmware.Proofs.Lifetime
import CarFirmware.Proofs.Messages
import CarFirmware.Proofs.Busy
import CarFirmware.Proofs.Strings
import CarFirmware.Proofs.Motors
import CarFirmware.Proofs.AudioConvert
import CarFirmware.Proofs.LedRenderer
import CarFirmware.Proofs.PlayMp3
import CarFirmware.Proofs.MyUcp
import CarFirmware.Proofs.Provisioning
import CarFirmware.Proofs.FileMarker
import CarFirmware.Proofs.Durations
import CarFirmware.Proofs.Chase
import CarFirmware.Proofs.NoteLoop
import CarFirmware.Proofs.Keys
import CarFirmware.Proofs.PrepareWrite
import CarFirmware.Proofs.EnergyMode
import CarFirmware.Proofs.LedStripEncoder
import CarFirmware.Proofs.Timeline
import CarFirmware.Proofs.Score
import CarFirmware.Proofs.CommandFormat
import CarFirmware.Proofs.GattRadio
import CarFirmware.Proofs.LedPath
import CarFirmware.Proofs.Mp3Session
import CarFirmware.Lib.Deadline
import CarFirmware.Proofs.StopInTime
import CarFirmware.Proofs.MyenergyMode
import CarFirmware.Proofs.AppLed
